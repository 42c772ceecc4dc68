import Erllama.MetaSrv.Step
import Erllama.Lib.Index

namespace Erllama.MetaSrv

open Lib

/-!
# What the callbacks do to the tables

Three readings of the state carry the invariants of the server:

* `stamp` — the `LastUsed` of a key whose row is available, nothing otherwise.
* `refcountOf` — the refcount column of a key.
* `holderCount` — how many entries of the holders map claim a key.

Each operation gets one lemma per reading; later proofs use these and never unfold the
operation.
-/

variable {deps : Deps} {env : Env}

/-- The LRU stamp of a row: only an available row has one. -/
def rowStamp (r : Row) : Option Int :=
  if r.status = .available then some r.lastUsed else none

/-- The LRU stamp of a key. -/
def stamp (t : Table CacheKey Row) (key : CacheKey) : Option Int :=
  (t.lookup key).bind rowStamp

/-- The refcount column of a key. -/
def refcountOf (t : Table CacheKey Row) (key : CacheKey) : Option Nat :=
  (t.lookup key).map Row.refcount

/-- The number of holders of a key. -/
def holderCount (s : State) (key : CacheKey) : Nat :=
  s.holders.countValues fun h => h.2 = key

/-- The key has an available row. -/
def Available (s : State) (key : CacheKey) : Prop := s.status key = some .available

instance (s : State) (key : CacheKey) : Decidable (Available s key) :=
  inferInstanceAs (Decidable (_ = _))

/-- A key is available iff its row has an LRU stamp. -/
theorem available_iff {s : State} {key : CacheKey} :
    Available s key ↔ (stamp s.metaTbl key).isSome := by
  simp only [Available, State.status, stamp]
  cases s.metaTbl.lookup key with
  | none   => simp
  | some r => by_cases h : r.status = .available <;> simp [rowStamp, h]

/-- The effect deletes the stored payload of the key: its file or its RAM slab. -/
def Out.Deletes (o : Out) (key : CacheKey) : Prop :=
  match o with
  | .deleteSlab k   => k = key
  | .deleteFile k _ => k = key
  | _               => False

/-- The callback that led to this state has deleted the payload of the key. -/
def Deleted (s : State) (key : CacheKey) : Prop := ∃ o ∈ s.out, o.Deletes key

/-! ### Readings of an updated table -/

/-- Writing a row changes the stamp of its key alone. -/
theorem stamp_insert (t : Table CacheKey Row) (key : CacheKey) (r : Row) :
    stamp (t.insert key r) = Function.update (stamp t) key (rowStamp r) := by
  funext k
  simp only [stamp, AList.lookup_insert_ite, Function.update_apply]
  by_cases h : k = key <;> simp [h]

/-- Deleting a row takes the stamp of its key away. -/
theorem stamp_erase (t : Table CacheKey Row) (key : CacheKey) :
    stamp (t.erase key) = Function.update (stamp t) key none := by
  funext k
  simp only [stamp, AList.lookup_erase_ite, Function.update_apply]
  by_cases h : k = key <;> simp [h]

/-- A column update that touches neither status nor recency keeps every stamp. -/
theorem stamp_update (t : Table CacheKey Row) (key : CacheKey) {f : Row → Row}
    (hf : ∀ r, rowStamp (f r) = rowStamp r) : stamp (t.update key f) = stamp t := by
  funext k
  simp only [stamp, AList.lookup_update]
  by_cases h : k = key
  · subst h
    cases t.lookup k with
    | none   => simp
    | some r => simp [hf r]
  · simp [h]

/-- Writing a row changes the refcount of its key alone. -/
theorem refcountOf_insert (t : Table CacheKey Row) (key : CacheKey) (r : Row) :
    refcountOf (t.insert key r) = Function.update (refcountOf t) key (some r.refcount) := by
  funext k
  simp only [refcountOf, AList.lookup_insert_ite, Function.update_apply]
  by_cases h : k = key <;> simp [h]

/-- Deleting a row takes the refcount of its key away. -/
theorem refcountOf_erase (t : Table CacheKey Row) (key : CacheKey) :
    refcountOf (t.erase key) = Function.update (refcountOf t) key none := by
  funext k
  simp only [refcountOf, AList.lookup_erase_ite, Function.update_apply]
  by_cases h : k = key <;> simp [h]

/-- Rewriting a row changes the refcount of its key alone. -/
theorem refcountOf_update (t : Table CacheKey Row) (key : CacheKey) {f : Row → Row}
    (g : Nat → Nat) (hf : ∀ r, (f r).refcount = g r.refcount) :
    refcountOf (t.update key f) =
      Function.update (refcountOf t) key ((refcountOf t key).map g) := by
  funext k
  simp only [refcountOf, AList.lookup_update, Function.update_apply]
  by_cases h : k = key
  · subst h
    cases t.lookup k with
    | none   => simp
    | some r => simp [hf r]
  · simp [h]

/-! ### Operations that leave the tables alone -/

section Frame

variable (s : State) (key : CacheKey)

@[simp] theorem metaTbl_emit (o : Out) : (s.emit o).metaTbl = s.metaTbl := rfl
@[simp] theorem lru_emit (o : Out) : (s.emit o).lru = s.lru := rfl
@[simp] theorem holders_emit (o : Out) : (s.emit o).holders = s.holders := rfl
@[simp] theorem reservations_emit (o : Out) : (s.emit o).reservations = s.reservations := rfl
@[simp] theorem files_emit (o : Out) : (s.emit o).files = s.files := rfl

@[simp] theorem metaTbl_readClock : s.readClock.metaTbl = s.metaTbl := rfl
@[simp] theorem lru_readClock : s.readClock.lru = s.lru := rfl
@[simp] theorem holders_readClock : s.readClock.holders = s.holders := rfl
@[simp] theorem reservations_readClock : s.readClock.reservations = s.reservations := rfl
@[simp] theorem files_readClock : s.readClock.files = s.files := rfl
@[simp] theorem out_readClock : s.readClock.out = s.out := rfl

@[simp] theorem metaTbl_removeReservation :
    (s.removeReservation key).metaTbl = s.metaTbl := rfl
@[simp] theorem lru_removeReservation : (s.removeReservation key).lru = s.lru := rfl
@[simp] theorem holders_removeReservation :
    (s.removeReservation key).holders = s.holders := rfl
@[simp] theorem reservations_removeReservation :
    (s.removeReservation key).reservations = s.reservations.erase key := rfl
@[simp] theorem out_removeReservation : (s.removeReservation key).out = s.out := rfl

@[simp] theorem metaTbl_deleteRow : (s.deleteRow key).metaTbl = s.metaTbl.erase key := rfl
@[simp] theorem lru_deleteRow : (s.deleteRow key).lru = s.lru := rfl
@[simp] theorem holders_deleteRow : (s.deleteRow key).holders = s.holders := rfl
@[simp] theorem reservations_deleteRow :
    (s.deleteRow key).reservations = s.reservations := rfl
@[simp] theorem out_deleteRow : (s.deleteRow key).out = s.out := rfl

/-- A file deletion touches files and effects only. -/
theorem deleteFile_frame (env : Env) (path : Option Path) :
    (deleteFile env key path s).metaTbl = s.metaTbl ∧ (deleteFile env key path s).lru = s.lru ∧
      (deleteFile env key path s).holders = s.holders := by
  cases path <;> exact ⟨rfl, rfl, rfl⟩

/-- Deleting a file keeps the rows. -/
@[simp] theorem metaTbl_deleteFile (env : Env) (path : Option Path) :
    (deleteFile env key path s).metaTbl = s.metaTbl := (deleteFile_frame s key env path).1
/-- Deleting a file keeps the LRU table. -/
@[simp] theorem lru_deleteFile (env : Env) (path : Option Path) :
    (deleteFile env key path s).lru = s.lru := (deleteFile_frame s key env path).2.1
/-- Deleting a file keeps the holders. -/
@[simp] theorem holders_deleteFile (env : Env) (path : Option Path) :
    (deleteFile env key path s).holders = s.holders := (deleteFile_frame s key env path).2.2

/-- Deleting a file hands out no reference. -/
@[simp] theorem nextRef_deleteFile (env : Env) (path : Option Path) :
    (deleteFile env key path s).nextRef = s.nextRef := by
  cases path <;> rfl

/-- Persisting a hit count touches files only. -/
theorem persistHits_frame (env : Env) (loc : Location) (hits : Nat) :
    ∃ files, persistHits env loc hits s = { s with files := files } := by
  have htouch : ∀ p, ∃ files, touchHits env p hits s = { s with files := files } := by
    intro p
    unfold touchHits
    split
    · exact ⟨s.files, rfl⟩
    · exact ⟨_, rfl⟩
  unfold persistHits
  split
  · exact htouch _
  · exact htouch _
  · exact ⟨s.files, rfl⟩

/-- Answering waiters touches the waiters map and the effects only, and deletes nothing. -/
theorem notifyWaiters_frame (key' : CacheKey) :
    ∃ ws out, notifyWaiters key s = { s with waiters := ws, out := s.out ++ out } ∧
      ∀ o ∈ out, ¬ o.Deletes key' := by
  unfold notifyWaiters
  cases s.waiters.lookup key with
  | none    => exact ⟨s.waiters, [], by simp, by simp⟩
  | some ws =>
    refine ⟨_, _, rfl, ?_⟩
    intro o ho
    obtain ⟨w, -, hw⟩ := List.mem_flatMap.mp ho
    simp only [List.mem_cons, List.not_mem_nil, or_false] at hw
    rcases hw with rfl | rfl <;> exact id

/-- Answering the waiters keeps the rows. -/
@[simp] theorem metaTbl_notifyWaiters : (notifyWaiters key s).metaTbl = s.metaTbl := by
  obtain ⟨ws, out, h, -⟩ := notifyWaiters_frame s key key
  rw [h]

/-- Answering the waiters keeps the LRU table. -/
@[simp] theorem lru_notifyWaiters : (notifyWaiters key s).lru = s.lru := by
  obtain ⟨ws, out, h, -⟩ := notifyWaiters_frame s key key
  rw [h]

/-- Answering the waiters keeps the holders. -/
@[simp] theorem holders_notifyWaiters : (notifyWaiters key s).holders = s.holders := by
  obtain ⟨ws, out, h, -⟩ := notifyWaiters_frame s key key
  rw [h]

/-- Answering the waiters deletes nothing. -/
theorem deleted_notifyWaiters {key' : CacheKey} :
    Deleted (notifyWaiters key s) key' ↔ Deleted s key' := by
  obtain ⟨ws, out, h, hout⟩ := notifyWaiters_frame s key key'
  simp only [Deleted, h, List.mem_append]
  constructor
  · rintro ⟨o, ho | ho, hd⟩
    · exact ⟨o, ho, hd⟩
    · exact absurd hd (hout o ho)
  · rintro ⟨o, ho, hd⟩
    exact ⟨o, Or.inl ho, hd⟩

end Frame

/-! ### Operations on the row of one key -/

section Rows

variable (s : State) (key : CacheKey)

/-- A refcount is no part of a stamp. -/
theorem stamp_decrementRefcount :
    stamp (decrementRefcount key s).metaTbl = stamp s.metaTbl :=
  stamp_update _ _ fun _ => rfl

/-- A holder that leaves lowers the refcount of its key by one. -/
theorem refcountOf_decrementRefcount :
    refcountOf (decrementRefcount key s).metaTbl =
      Function.update (refcountOf s.metaTbl) key ((refcountOf s.metaTbl key).map (· - 1)) :=
  refcountOf_update _ _ (· - 1) fun _ => rfl

/-- A pin flag is no part of a stamp. -/
theorem stamp_setPinnedFlag (b : Bool) :
    stamp (setPinnedFlag key b s).metaTbl = stamp s.metaTbl :=
  stamp_update _ _ fun _ => rfl

/-- A pin flag keeps the refcounts. -/
theorem refcountOf_setPinnedFlag (b : Bool) :
    refcountOf (setPinnedFlag key b s).metaTbl = refcountOf s.metaTbl := by
  have h := refcountOf_update s.metaTbl key (f := fun r => { r with pinned := b }) id
    fun _ => rfl
  rw [Option.map_id, id_eq, Function.update_eq_self] at h
  exact h

/-- Restoring a pin changes at most the pin flag of one row. -/
theorem maybeRestorePin_cases :
    maybeRestorePin key s = s ∨ maybeRestorePin key s = setPinnedFlag key true s := by
  unfold maybeRestorePin
  split
  · exact Or.inr rfl
  · exact Or.inl rfl

/-- Restoring a pin keeps the stamps. -/
theorem stamp_maybeRestorePin :
    stamp (maybeRestorePin key s).metaTbl = stamp s.metaTbl := by
  rcases maybeRestorePin_cases s key with h | h
  · rw [h]
  · rw [h, stamp_setPinnedFlag]

/-- Restoring a pin keeps the refcounts. -/
theorem refcountOf_maybeRestorePin :
    refcountOf (maybeRestorePin key s).metaTbl = refcountOf s.metaTbl := by
  rcases maybeRestorePin_cases s key with h | h
  · rw [h]
  · rw [h, refcountOf_setPinnedFlag]

/-- Restoring a pin leaves every other component as it is. -/
theorem maybeRestorePin_frame :
    (maybeRestorePin key s).lru = s.lru ∧ (maybeRestorePin key s).holders = s.holders ∧
      (maybeRestorePin key s).reservations = s.reservations ∧
      (maybeRestorePin key s).nextRef = s.nextRef ∧ (maybeRestorePin key s).out = s.out := by
  rcases maybeRestorePin_cases s key with h | h <;> rw [h] <;>
    exact ⟨rfl, rfl, rfl, rfl, rfl⟩

/-- Pinning changes at most two pin flags and the pinned map. -/
theorem doPinRow_tables (ns : Digest) :
    stamp (doPinRow ns key s).metaTbl = stamp s.metaTbl ∧
      refcountOf (doPinRow ns key s).metaTbl = refcountOf s.metaTbl ∧
      (doPinRow ns key s).lru = s.lru ∧ (doPinRow ns key s).holders = s.holders ∧
      (doPinRow ns key s).out = s.out ∧ (doPinRow ns key s).nextRef = s.nextRef := by
  have hpre : ∃ s1, (s1 = s ∨ ∃ other, s1 = setPinnedFlag other false s) ∧
      doPinRow ns key s =
        { setPinnedFlag key true s1 with
          pinned := (setPinnedFlag key true s1).pinned.insert ns key } := by
    refine ⟨_, ?_, rfl⟩
    cases s.pinned.lookup ns with
    | none       => exact Or.inl rfl
    | some other =>
      by_cases h : other = key
      · exact Or.inl (if_pos h)
      · exact Or.inr ⟨other, if_neg h⟩
  obtain ⟨s1, hs1, heq⟩ := hpre
  rw [heq]
  rcases hs1 with rfl | ⟨other, rfl⟩
  · exact ⟨stamp_setPinnedFlag _ _ _, refcountOf_setPinnedFlag _ _ _, rfl, rfl, rfl, rfl⟩
  · refine ⟨?_, ?_, rfl, rfl, rfl, rfl⟩
    · exact (stamp_setPinnedFlag _ _ _).trans (stamp_setPinnedFlag _ _ _)
    · exact (refcountOf_setPinnedFlag _ _ _).trans (refcountOf_setPinnedFlag _ _ _)

end Rows

/-! ### The four ways a callback changes rows -/

/-- Replying deletes nothing. -/
theorem deleted_emit {s : State} {o : Out} (ho : ∀ k, ¬ o.Deletes k) (k : CacheKey) :
    Deleted (s.emit o) k ↔ Deleted s k := by
  simp only [Deleted, State.emit, List.mem_append, List.mem_singleton]
  constructor
  · rintro ⟨o', ho' | rfl, hd⟩
    · exact ⟨o', ho', hd⟩
    · exact absurd hd (ho k)
  · rintro ⟨o', ho', hd⟩
    exact ⟨o', Or.inl ho', hd⟩

/-- A reply deletes nothing. -/
@[simp] theorem deleted_emit_reply {s : State} {frm : From} {r : Reply} {k : CacheKey} :
    Deleted (s.emit (.reply frm r)) k ↔ Deleted s k :=
  deleted_emit (fun _ => id) k

/-- The readings of the two states agree: no row enters, leaves or moves, no claim changes
    and no payload is deleted. -/
structure SameReadings (s s' : State) : Prop where
  stamp : MetaSrv.stamp s'.metaTbl = MetaSrv.stamp s.metaTbl
  refcountOf : MetaSrv.refcountOf s'.metaTbl = MetaSrv.refcountOf s.metaTbl
  lru : s'.lru = s.lru
  holders : s'.holders = s.holders
  deleted : ∀ k, Deleted s' k ↔ Deleted s k
  nextRef : s.nextRef ≤ s'.nextRef

/-- The LRU table without the entry of the row the key has. -/
def lruWithout (s : State) (key : CacheKey) : Finset LruKey :=
  match s.metaTbl.lookup key with
  | some old => s.lru.erase (toLex (old.lastUsed, key))
  | none     => s.lru

/-- The key gets a fresh available row with refcount zero, and its LRU entry moves. -/
structure Installs (key : CacheKey) (s s' : State) : Prop where
  stamp : ∃ t, MetaSrv.stamp s'.metaTbl = Function.update (MetaSrv.stamp s.metaTbl) key (some t) ∧
    s'.lru = insert (toLex (t, key)) (lruWithout s key)
  refcountOf : MetaSrv.refcountOf s'.metaTbl =
    Function.update (MetaSrv.refcountOf s.metaTbl) key (some 0)
  holders : s'.holders = s.holders
  deleted : ∀ k, Deleted s' k ↔ Deleted s k
  nextRef : s.nextRef ≤ s'.nextRef

/-- The row of the key is deleted, and at most the payload of the key; the LRU table stays. -/
structure Removes (key : CacheKey) (s s' : State) : Prop where
  stamp : MetaSrv.stamp s'.metaTbl = Function.update (MetaSrv.stamp s.metaTbl) key none
  refcountOf : MetaSrv.refcountOf s'.metaTbl =
    Function.update (MetaSrv.refcountOf s.metaTbl) key none
  lru : s'.lru = s.lru
  holders : s'.holders = s.holders
  deleted : ∀ k, k ≠ key → (Deleted s' k ↔ Deleted s k)
  nextRef : s.nextRef ≤ s'.nextRef

/-- The key gets the placeholder row of a reservation; the LRU table stays. -/
structure Reserves (key : CacheKey) (s s' : State) : Prop where
  stamp : MetaSrv.stamp s'.metaTbl = Function.update (MetaSrv.stamp s.metaTbl) key none
  refcountOf : MetaSrv.refcountOf s'.metaTbl =
    Function.update (MetaSrv.refcountOf s.metaTbl) key (some 0)
  lru : s'.lru = s.lru
  holders : s'.holders = s.holders
  deleted : ∀ k, Deleted s' k ↔ Deleted s k
  nextRef : s.nextRef ≤ s'.nextRef

theorem SameReadings.refl (s : State) : SameReadings s s :=
  ⟨rfl, rfl, rfl, rfl, fun _ => Iff.rfl, le_rfl⟩

/-- A reply changes no reading. -/
theorem SameReadings.emit_reply {s s' : State} (h : SameReadings s s') (frm : From) (r : Reply) :
    SameReadings s (s'.emit (.reply frm r)) :=
  ⟨h.stamp, h.refcountOf, h.lru, h.holders, fun k => deleted_emit_reply.trans (h.deleted k),
    h.nextRef⟩

/-- A row stays installed when a reply is sent. -/
theorem Installs.emit_reply {key : CacheKey} {s s' : State} (h : Installs key s s') (frm : From)
    (r : Reply) : Installs key s (s'.emit (.reply frm r)) :=
  ⟨h.stamp, h.refcountOf, h.holders, fun k => deleted_emit_reply.trans (h.deleted k), h.nextRef⟩

/-- What follows an installation and leaves the readings alone is part of it. -/
theorem Installs.trans_same {key : CacheKey} {s s' s'' : State} (h : Installs key s s')
    (h' : SameReadings s' s'') : Installs key s s'' := by
  obtain ⟨t, hstamp, hlru⟩ := h.stamp
  exact ⟨⟨t, h'.stamp.trans hstamp, h'.lru.trans hlru⟩, h'.refcountOf.trans h.refcountOf,
    h'.holders.trans h.holders, fun k => (h'.deleted k).trans (h.deleted k),
    h.nextRef.trans h'.nextRef⟩

/-! ### Installing, adopting, deleting, reserving -/

section Writers

variable (s : State) (key : CacheKey) (tier : Tier) (size : Nat) (header : Bytes)
  (tokensBin : Option Bytes) (textBytes : Nat)

/-- Restoring a pin changes no reading. -/
theorem maybeRestorePin_same : SameReadings s (maybeRestorePin key s) := by
  obtain ⟨hlru, hholders, -, hnext, hout⟩ := maybeRestorePin_frame s key
  exact ⟨stamp_maybeRestorePin s key, refcountOf_maybeRestorePin s key, hlru, hholders,
    fun k => by rw [Deleted, Deleted, hout], hnext.ge⟩

/-- Answering the waiters changes no reading. -/
theorem notifyWaiters_same : SameReadings s (notifyWaiters key s) := by
  refine ⟨?_, ?_, lru_notifyWaiters s key, holders_notifyWaiters s key, fun k => ?_, ?_⟩
  · rw [metaTbl_notifyWaiters]
  · rw [metaTbl_notifyWaiters]
  · exact deleted_notifyWaiters s key
  · obtain ⟨ws, out, h, -⟩ := notifyWaiters_frame s key key
    rw [h]

variable (env) in
/-- Installing a row gives its key a fresh stamp and refcount, and an LRU entry. -/
theorem installAvailableRow_installs (loc : Location) :
    Installs key s (installAvailableRow env key tier size header loc tokensBin textBytes s) where
  stamp := ⟨env.monotonicNs s.reads, stamp_insert _ _ _, rfl⟩
  refcountOf := refcountOf_insert _ _ _
  holders := rfl
  deleted _ := Iff.rfl
  nextRef := le_rfl

/-- An adopted file is installed as a row. -/
theorem adoptRow_installs (path : Option Path) :
    Installs key s (adoptRow env key tier path size header tokensBin textBytes s) := by
  have hinstall := installAvailableRow_installs env s key tier size header tokensBin
    textBytes (locationFor tier path)
  have hremove : ∀ s' : State, SameReadings s' (s'.removeReservation key) := fun s' =>
    ⟨rfl, rfl, rfl, rfl, fun _ => Iff.rfl, le_rfl⟩
  exact ((hinstall.trans_same (maybeRestorePin_same _ key)).trans_same (hremove _)).trans_same
    (notifyWaiters_same _ key)

/-- A grant puts a placeholder in the place of the key's row. -/
theorem createReservation_reserves (pid : Pid) (frm : From) :
    Reserves key s (createReservation env key tier pid frm s) where
  stamp := stamp_insert _ _ _
  refcountOf := refcountOf_insert _ _ _
  lru := rfl
  holders := rfl
  deleted _ := deleted_emit_reply
  nextRef := Nat.le_add_right s.nextRef 2

/-- Forgetting a reservation removes the row of its key. -/
theorem deleteRow_removes : Removes key s ((s.deleteRow key).removeReservation key) where
  stamp := stamp_erase _ _
  refcountOf := refcountOf_erase _ _
  lru := rfl
  holders := rfl
  deleted _ _ := Iff.rfl
  nextRef := le_rfl

/-- A file deletion deletes the payload of its own key only. -/
theorem deleted_deleteFile_of_ne {path : Option Path} {k : CacheKey} (hk : k ≠ key) :
    Deleted (deleteFile env key path s) k ↔ Deleted s k := by
  cases path with
  | none   => exact Iff.rfl
  | some p =>
    simp only [Deleted, deleteFile, State.emit, List.mem_append, List.mem_singleton]
    constructor
    · rintro ⟨o, ho | rfl, hd⟩
      · exact ⟨o, ho, hd⟩
      · exact absurd hd.symm hk
    · rintro ⟨o, ho, hd⟩
      exact ⟨o, Or.inl ho, hd⟩

/-- Forgetting a reservation with its file removes the row of its key. -/
theorem deleteFile_deleteRow_removes (path : Option Path) :
    Removes key s (((deleteFile env key path s).deleteRow key).removeReservation key) where
  stamp := by simp only [metaTbl_removeReservation, metaTbl_deleteRow, metaTbl_deleteFile,
    stamp_erase]
  refcountOf := by simp only [metaTbl_removeReservation, metaTbl_deleteRow, metaTbl_deleteFile,
    refcountOf_erase]
  lru := lru_deleteFile s key env path
  holders := holders_deleteFile s key env path
  deleted _ hk := deleted_deleteFile_of_ne s key hk
  nextRef := (nextRef_deleteFile s key env path).ge

variable (deps env) in
/-- The cleanup of this reservation adopts its linked file: the writer got past `link/2`
    and the file still parses as a checkpoint of the key. -/
def Adopts (key : CacheKey) (r : Reservation) (s : State) : Prop :=
  r.stage = .postLink ∧ (validateAndAdopt deps env key r.path s).isSome

instance (r : Reservation) : Decidable (Adopts deps env key r s) :=
  inferInstanceAs (Decidable (_ ∧ _))

variable {s key}

/-- A cleanup that adopts installs the row again. -/
theorem cleanupByStage_installs {r : Reservation} (h : Adopts deps env key r s) :
    Installs key s (cleanupByStage deps env key r s) := by
  obtain ⟨hstage, hsome⟩ := h
  obtain ⟨a, ha⟩ := Option.isSome_iff_exists.mp hsome
  have heq : cleanupByStage deps env key r s =
      adoptRow env key r.tier r.path a.size a.header (some a.tokensBin) a.textBytes s := by
    simp only [cleanupByStage, hstage, ha]
  rw [heq]
  exact adoptRow_installs s key _ _ _ _ _ _

/-- Any other cleanup removes the row. -/
theorem cleanupByStage_removes {r : Reservation} (h : ¬ Adopts deps env key r s) :
    Removes key s (cleanupByStage deps env key r s) := by
  cases hstage : r.stage with
  | preLink =>
    simp only [cleanupByStage, hstage]
    exact deleteRow_removes s key
  | postLink =>
    have hnone : validateAndAdopt deps env key r.path s = none := by
      cases hv : validateAndAdopt deps env key r.path s with
      | none   => rfl
      | some a => exact absurd ⟨hstage, by rw [hv]; rfl⟩ h
    simp only [cleanupByStage, hstage, hnone]
    exact deleteFile_deleteRow_removes s key _

variable (deps env s key) in
/-- A cleanup leaves the readings of every other key alone. -/
theorem cleanupByStage_frame (r : Reservation) :
    (∀ k, k ≠ key → stamp (cleanupByStage deps env key r s).metaTbl k = stamp s.metaTbl k ∧
        refcountOf (cleanupByStage deps env key r s).metaTbl k = refcountOf s.metaTbl k ∧
        (Deleted (cleanupByStage deps env key r s) k ↔ Deleted s k)) ∧
      (cleanupByStage deps env key r s).holders = s.holders ∧
      s.nextRef ≤ (cleanupByStage deps env key r s).nextRef := by
  by_cases h : Adopts deps env key r s
  · have hi := cleanupByStage_installs h
    obtain ⟨t, hstamp, -⟩ := hi.stamp
    refine ⟨fun k hk => ⟨?_, ?_, hi.deleted k⟩, hi.holders, hi.nextRef⟩
    · rw [hstamp, Function.update_of_ne hk]
    · rw [hi.refcountOf, Function.update_of_ne hk]
  · have hr := cleanupByStage_removes h
    refine ⟨fun k hk => ⟨?_, ?_, hr.deleted k hk⟩, hr.holders, hr.nextRef⟩
    · rw [hr.stamp, Function.update_of_ne hk]
    · rw [hr.refcountOf, Function.update_of_ne hk]

end Writers

/-! ### What each callback does -/

section Handlers

variable (deps env) (s : State) (key : CacheKey) (frm : From)

/-- A lookup that may wait changes no reading. -/
theorem handleLookupOrWait_same (ms : Nat) :
    SameReadings s (handleLookupOrWait env key ms frm s) := by
  have hreply := fun r => (SameReadings.refl s).emit_reply frm r
  unfold handleLookupOrWait
  cases s.metaTbl.lookup key with
  | none     => exact hreply _
  | some row =>
    dsimp only
    cases row.status with
    | available => exact hreply _
    | evicting  => exact hreply _
    | writing   =>
      dsimp only
      split
      · exact ⟨rfl, rfl, rfl, rfl, deleted_emit fun _ => id, Nat.le_succ _⟩
      · exact hreply _

/-- Checking a token changes no reading. -/
theorem handleCheckReservation_same (token : Ref) :
    SameReadings s (handleCheckReservation env key token frm s) := by
  unfold handleCheckReservation
  cases s.reservationWith key token with
  | none   => exact (SameReadings.refl s).emit_reply frm _
  | some r => exact ⟨rfl, rfl, rfl, rfl, fun k => deleted_emit_reply, le_rfl⟩

/-- Marking a reservation changes no reading. -/
theorem handleMarkPublished_same (token : Ref) (path : Path) :
    SameReadings s (handleMarkPublished env key token path frm s) := by
  unfold handleMarkPublished
  cases s.reservationWith key token with
  | none   => exact (SameReadings.refl s).emit_reply frm _
  | some r => exact ⟨rfl, rfl, rfl, rfl, fun k => deleted_emit_reply, le_rfl⟩

/-- A waiter that gives up changes no reading. -/
theorem expireWaiter_same : SameReadings s (expireWaiter key frm s) := by
  unfold expireWaiter
  dsimp only
  split
  · split <;> exact ⟨rfl, rfl, rfl, rfl, fun k => deleted_emit_reply, le_rfl⟩
  · exact SameReadings.refl s

/-- Pinning a row changes no reading. -/
theorem doPinRow_same (ns : Digest) : SameReadings s (doPinRow ns key s) := by
  obtain ⟨hstamp, href, hlru, hholders, hout, hnext⟩ := doPinRow_tables s key ns
  exact ⟨hstamp, href, hlru, hholders, fun k => by rw [Deleted, Deleted, hout], hnext.ge⟩

/-- A checkout claims an available row, or changes nothing. -/
theorem handleCheckout_cases (pid : Pid) :
    SameReadings s (handleCheckout env key pid frm s) ∨
      ∃ row, s.metaTbl.lookup key = some row ∧ row.status = .available ∧
        handleCheckout env key pid frm s = doCheckout env key pid row frm s := by
  unfold handleCheckout
  cases hrow : s.metaTbl.lookup key with
  | none     => exact Or.inl ((SameReadings.refl s).emit_reply frm _)
  | some row =>
    by_cases h : row.status = .available
    · exact Or.inr ⟨row, rfl, h, if_pos h⟩
    · simp only [h, ↓reduceIte]
      exact Or.inl ((SameReadings.refl s).emit_reply frm _)

/-- What a successful checkout does to the readings. -/
theorem doCheckout_readings (pid : Pid) (row : Row) (hav : row.status = .available) :
    stamp (doCheckout env key pid row frm s).metaTbl =
        Function.update (stamp s.metaTbl) key (some (env.monotonicNs s.reads)) ∧
      refcountOf (doCheckout env key pid row frm s).metaTbl =
        Function.update (refcountOf s.metaTbl) key (some (row.refcount + 1)) ∧
      (doCheckout env key pid row frm s).lru = insert (toLex (env.monotonicNs s.reads, key))
        (s.lru.erase (toLex (row.lastUsed, key))) ∧
      (doCheckout env key pid row frm s).holders = s.holders.insert s.nextRef (pid, key) ∧
      (doCheckout env key pid row frm s).nextRef = s.nextRef + 1 ∧
      ∀ k, Deleted (doCheckout env key pid row frm s) k ↔ Deleted s k := by
  obtain ⟨files, hfiles⟩ := persistHits_frame s env row.location (row.hits + 1)
  simp only [doCheckout, hfiles]
  refine ⟨?_, refcountOf_insert _ _ _, rfl, rfl, rfl, fun k => deleted_emit_reply⟩
  refine (stamp_insert _ _ _).trans ?_
  simp only [rowStamp, hav, ↓reduceIte]

/-- A checkin gives one claim back, or changes nothing. -/
theorem handleCheckin_cases (monRef : Ref) :
    (s.holders.lookup monRef = none ∧ SameReadings s (handleCheckin monRef frm s)) ∨
      ∃ pid k, s.holders.lookup monRef = some (pid, k) ∧ handleCheckin monRef frm s =
        (decrementRefcount k { s with holders := s.holders.erase monRef }).emit
          (.reply frm .ok) := by
  unfold handleCheckin
  cases h : s.holders.lookup monRef with
  | none   => exact Or.inl ⟨rfl, (SameReadings.refl s).emit_reply frm _⟩
  | some v => exact Or.inr ⟨v.1, v.2, rfl, rfl⟩

/-- A direct insert installs its row. -/
theorem handleInsertAvailable_installs (tier : Tier) (size : Nat) (header : Bytes)
    (loc : Location) (tokensBin : Option Bytes) (textBytes : Nat) :
    Installs key s
      (handleInsertAvailable env key tier size header loc tokensBin textBytes frm s) := by
  have hinstall := installAvailableRow_installs env s key tier size header tokensBin
    textBytes loc
  exact ((hinstall.trans_same (maybeRestorePin_same _ key)).trans_same
    (notifyWaiters_same _ key)).emit_reply frm _

/-- An announce with the reservation's token installs the row, any other changes nothing. -/
theorem handleAnnounceSaved_cases (token : Ref) (size : Nat) (header : Bytes)
    (tokensBin : Option Bytes) (textBytes : Nat) :
    (s.reservationWith key token = none ∧
        SameReadings s (handleAnnounceSaved env key token size header tokensBin textBytes frm s)) ∨
      ((s.reservationWith key token).isSome ∧
        Installs key s
          (handleAnnounceSaved env key token size header tokensBin textBytes frm s)) := by
  unfold handleAnnounceSaved
  cases s.reservationWith key token with
  | none   => exact Or.inl ⟨rfl, (SameReadings.refl s).emit_reply frm _⟩
  | some r => exact Or.inr ⟨rfl, (adoptRow_installs s key _ _ _ _ _ _).emit_reply frm _⟩

/-- A cancel with the reservation's token removes the row, any other changes nothing. -/
theorem handleCancelReservation_cases (token : Ref) :
    (s.reservationWith key token = none ∧
        SameReadings s (handleCancelReservation key token frm s)) ∨
      ((s.reservationWith key token).isSome ∧
        Removes key s (handleCancelReservation key token frm s)) := by
  unfold handleCancelReservation
  cases s.reservationWith key token with
  | none   => exact Or.inl ⟨rfl, (SameReadings.refl s).emit_reply frm _⟩
  | some r =>
    have hr := deleteRow_removes s key
    exact Or.inr ⟨rfl, hr.stamp, hr.refcountOf, hr.lru, hr.holders, fun k hk =>
      deleted_emit_reply.trans (hr.deleted k hk), hr.nextRef⟩

/-- Asking whether a reservation is live reads at most the clock. -/
theorem afterIsLive_same (r : Reservation) : SameReadings s (afterIsLive env r s) := by
  unfold afterIsLive
  split <;> exact ⟨rfl, rfl, rfl, rfl, fun _ => Iff.rfl, le_rfl⟩

/-- Asking whether a writer is live does not decide what its file holds. -/
theorem adopts_afterIsLive (r r' : Reservation) :
    Adopts deps env key r (afterIsLive env r' s) ↔ Adopts deps env key r s := by
  unfold afterIsLive
  split <;> exact Iff.rfl

/-- A reservation of the key that `reserve_save` finds stale and whose linked file it
    adopts, only to write the placeholder of the new reservation over it. -/
def OverwritesAdopted (key : CacheKey) (s : State) : Prop :=
  s.status key = some .writing ∧ ∃ old, s.reservations.lookup key = some old ∧
    reservationIsLive env old s = false ∧ Adopts deps env key old s

/-- Cleaning up after the liveness question is cleaning up. -/
theorem cleanup_afterIsLive (r : Reservation) :
    (Adopts deps env key r s →
        Installs key s (cleanupByStage deps env key r (afterIsLive env r s))) ∧
      (¬ Adopts deps env key r s →
        Removes key s (cleanupByStage deps env key r (afterIsLive env r s))) := by
  rw [← adopts_afterIsLive deps env s key r r]
  have hinst : Adopts deps env key r (afterIsLive env r s) → _ := cleanupByStage_installs
  have hrem : ¬ Adopts deps env key r (afterIsLive env r s) → _ := cleanupByStage_removes
  generalize cleanupByStage deps env key r (afterIsLive env r s) = s' at hinst hrem ⊢
  unfold afterIsLive at hinst hrem ⊢
  split at hinst
  · simp only [*] at hrem ⊢
    exact ⟨fun h => ⟨(hinst h).stamp, (hinst h).refcountOf, (hinst h).holders, (hinst h).deleted,
        (hinst h).nextRef⟩,
      fun h => ⟨(hrem h).stamp, (hrem h).refcountOf, (hrem h).lru, (hrem h).holders,
        (hrem h).deleted, (hrem h).nextRef⟩⟩
  · simp only [*] at hrem ⊢
    exact ⟨hinst, hrem⟩

/-- A reserve-save changes nothing, or reserves a key that has no available row, after at
    most a cleanup of the stale reservation. -/
theorem doReserveSave_cases (tier : Tier) (pid : Pid) :
    SameReadings s (doReserveSave deps env key tier pid frm s) ∧
        ¬ OverwritesAdopted deps env key s ∨
      ¬ Available s key ∧ ∃ s1, Reserves key s1 (doReserveSave deps env key tier pid frm s) ∧
        (OverwritesAdopted deps env key s ∧ Installs key s s1 ∨
          ¬ OverwritesAdopted deps env key s ∧ (SameReadings s s1 ∨ Removes key s s1)) := by
  unfold doReserveSave
  have hreply := fun r => (SameReadings.refl s).emit_reply frm r
  cases hst : s.status key with
  | none =>
    refine Or.inr ⟨?_, s, createReservation_reserves s key tier pid frm, Or.inr ⟨?_, ?_⟩⟩
    · simp [Available, hst]
    · simp [OverwritesAdopted, hst]
    · exact Or.inl (SameReadings.refl s)
  | some st =>
    cases st with
    | available => exact Or.inl ⟨hreply _, by simp [OverwritesAdopted, hst]⟩
    | evicting => exact Or.inl ⟨hreply _, by simp [OverwritesAdopted, hst]⟩
    | writing =>
      have hnav : ¬ Available s key := by simp [Available, hst]
      cases hres : s.reservations.lookup key with
      | none =>
        simp only [handleExistingWritingRow, hres]
        refine Or.inr ⟨hnav, s.deleteRow key, createReservation_reserves _ key tier pid frm,
          Or.inr ⟨by simp [OverwritesAdopted, hres], Or.inr ?_⟩⟩
        exact ⟨stamp_erase _ _, refcountOf_erase _ _, rfl, rfl, fun _ _ => Iff.rfl, le_rfl⟩
      | some old =>
        have hover : OverwritesAdopted deps env key s ↔
            reservationIsLive env old s = false ∧ Adopts deps env key old s := by
          simp [OverwritesAdopted, hst, hres]
        cases hlive : reservationIsLive env old s with
        | true =>
          simp only [handleExistingWritingRow, hres, hlive, ↓reduceIte]
          refine Or.inl ⟨(afterIsLive_same env s old).emit_reply frm _, ?_⟩
          simp [hover, hlive]
        | false =>
          simp only [handleExistingWritingRow, hres, hlive, Bool.false_eq_true, ↓reduceIte]
          refine Or.inr ⟨hnav, _, createReservation_reserves _ key tier pid frm, ?_⟩
          obtain ⟨hinst, hrem⟩ := cleanup_afterIsLive deps env s key old
          by_cases had : Adopts deps env key old s
          · exact Or.inl ⟨hover.mpr ⟨hlive, had⟩, hinst had⟩
          · exact Or.inr ⟨fun h => had (hover.mp h).2, Or.inr (hrem had)⟩

/-- The `DOWN` of a holder gives its claim back; any other is the writer of a reservation or
    nobody the server knows. -/
theorem handleDown_cases (ref : Ref) :
    (∃ pid k, s.holders.lookup ref = some (pid, k) ∧ handleDown deps env ref s =
        decrementRefcount k { s with holders := s.holders.erase ref }) ∨
      s.holders.lookup ref = none ∧
        (findReservationByMonref ref s.reservations = none ∧ handleDown deps env ref s = s ∨
          ∃ k r, findReservationByMonref ref s.reservations = some (k, r) ∧
            handleDown deps env ref s = cleanupByStage deps env k r s) := by
  unfold handleDown onWriterDown
  cases hh : s.holders.lookup ref with
  | some v => exact Or.inl ⟨v.1, v.2, rfl, rfl⟩
  | none =>
    cases hf : findReservationByMonref ref s.reservations with
    | none   => exact Or.inr ⟨rfl, Or.inl ⟨rfl, rfl⟩⟩
    | some v => exact Or.inr ⟨rfl, Or.inr ⟨v.1, v.2, rfl, rfl⟩⟩

end Handlers

/-! ### One eviction -/

/-- An unheld available row leaves together with the LRU entry the caller names; at most
    the payload of its key is deleted. -/
structure Evicts (key : CacheKey) (lruKey : LruKey) (s s' : State) : Prop where
  row : ∃ row, s.metaTbl.lookup key = some row ∧ row.status = .available ∧ row.refcount = 0
  metaTbl : s'.metaTbl = s.metaTbl.erase key
  lru : s'.lru = s.lru.erase lruKey
  holders : s'.holders = s.holders
  deleted : ∀ k, k ≠ key → (Deleted s' k ↔ Deleted s k)
  nextRef : s.nextRef ≤ s'.nextRef

/-- Deleting a payload keeps rows, LRU table, holders and reservations. -/
theorem deleteFromTier_frame (env : Env) (tier : Tier) (key : CacheKey) (loc : Location)
    (s : State) :
    (deleteFromTier env tier key loc s).metaTbl = s.metaTbl ∧
      (deleteFromTier env tier key loc s).lru = s.lru ∧
      (deleteFromTier env tier key loc s).holders = s.holders ∧
      (deleteFromTier env tier key loc s).nextRef = s.nextRef ∧
      ∀ k, k ≠ key → (Deleted (deleteFromTier env tier key loc s) k ↔ Deleted s k) := by
  have hfile : ∀ path, (deleteFile env key path s).metaTbl = s.metaTbl ∧
      (deleteFile env key path s).lru = s.lru ∧ (deleteFile env key path s).holders = s.holders ∧
      (deleteFile env key path s).nextRef = s.nextRef ∧
      ∀ k, k ≠ key → (Deleted (deleteFile env key path s) k ↔ Deleted s k) := fun path =>
    ⟨metaTbl_deleteFile s key env path, lru_deleteFile s key env path,
      holders_deleteFile s key env path, nextRef_deleteFile s key env path,
      fun k hk => deleted_deleteFile_of_ne s key hk⟩
  unfold deleteFromTier
  split
  · refine ⟨rfl, rfl, rfl, rfl, fun k hk => ?_⟩
    simp only [Deleted, State.emit, List.mem_append, List.mem_singleton]
    constructor
    · rintro ⟨o, ho | rfl, hd⟩
      · exact ⟨o, ho, hd⟩
      · exact absurd hd.symm hk
    · rintro ⟨o, ho, hd⟩
      exact ⟨o, Or.inl ho, hd⟩
  · exact hfile _
  · exact hfile _
  · exact ⟨rfl, rfl, rfl, rfl, fun _ _ => Iff.rfl⟩

/-- `tryEvictOne` finds the row gone, evicts it, or skips it. -/
theorem tryEvictOne_cases (env : Env) (lruKey : LruKey) (key : CacheKey) (liveKey : Option CacheKey)
    (mode : EvictMode) (s : State) :
    (s.metaTbl.lookup key = none ∧ tryEvictOne env lruKey key liveKey mode s =
        (none, { s with lru := s.lru.erase lruKey })) ∨
      (∃ size s', tryEvictOne env lruKey key liveKey mode s = (some size, s') ∧
        Evicts key lruKey s s') ∨
      tryEvictOne env lruKey key liveKey mode s = (none, s) := by
  unfold tryEvictOne
  cases hrow : s.metaTbl.lookup key with
  | none     => exact Or.inl ⟨rfl, rfl⟩
  | some row =>
    dsimp only
    split
    · rename_i h
      obtain ⟨hmeta, hlru, hholders, hnext, hdel⟩ :=
        deleteFromTier_frame env row.tier key row.location s
      refine Or.inr (Or.inl ⟨_, _, rfl, ⟨row, hrow, h.1, h.2.1⟩, ?_,
        congrArg (·.erase lruKey) hlru, hholders, hdel, hnext.ge⟩)
      rw [metaTbl_deleteRow, hmeta]
    · exact Or.inr (Or.inr rfl)

/-- The first entry of the LRU table is in it. -/
theorem lruFirst_mem {t : Finset LruKey} {k : LruKey} (h : lruFirst t = some k) : k ∈ t := by
  unfold lruFirst at h
  split at h
  · rw [← Option.some.inj h]
    exact Finset.min'_mem t _
  · cases h

/-- The next entry of the LRU table is in it, and later. -/
theorem lruNext_mem {t : Finset LruKey} {k k' : LruKey} (h : lruNext t k = some k') :
    k' ∈ t ∧ k < k' :=
  Finset.mem_filter.mp (lruFirst_mem h)

end Erllama.MetaSrv
