import Erllama.MetaSrv.Tables
import Mathlib.Logic.Relation

namespace Erllama.MetaSrv

open Lib

/-!
# The index behind the server

Seen from the save protocol the server keeps, per key, what its row says (`Entry`) and who
may publish it (`Claim`), next to the files.  `State.index` forgets the rest: recency,
reader counts, pins, waiters, deadlines, clocks and replies.

* `Index`, `State.index` — the abstract state and the abstraction function.
* `Index.reserve`, `Index.mark`, `Index.publish`, `Index.forget`, `Index.cleanup` — what the
  reservation protocol does to it.
* `State.answer` — the reply the caller of a callback gets.
* `index_*` — every operation of the server commutes with the abstraction: the lemmas later
  proofs use instead of the operation's body.
-/

variable {deps : Deps} {env : Env}

/-- What a row says about the stored checkpoint, and its status. -/
structure Entry where
  status : Status
  tier : Tier
  size : Nat
  headerBin : Bytes
  location : Location
  tokensRef : Option Bytes
  textBytes : Nat
deriving DecidableEq

/-- The entry of a row. -/
def Row.entry (r : Row) : Entry where
  status := r.status
  tier := r.tier
  size := r.size
  headerBin := r.headerBin
  location := r.location
  tokensRef := r.tokensRef
  textBytes := r.textBytes

/-- A reservation without its deadline. -/
structure Claim where
  writer : Pid
  token : Ref
  monref : Ref
  stage : Stage
  tier : Tier
  path : Option Path
deriving DecidableEq

/-- The claim of a reservation. -/
def Reservation.claim (r : Reservation) : Claim where
  writer := r.writer
  token := r.token
  monref := r.monref
  stage := r.stage
  tier := r.tier
  path := r.path

/-- The abstract state: one entry and one claim per key, the files, and the next fresh
    reference. -/
@[ext]
structure Index where
  entry : CacheKey → Option Entry
  claim : CacheKey → Option Claim
  files : Files
  nextRef : Ref

/-- The index behind a state of the server. -/
def State.index (s : State) : Index where
  entry key := (s.metaTbl.lookup key).map Row.entry
  claim key := (s.reservations.lookup key).map Reservation.claim
  files := s.files
  nextRef := s.nextRef

/-- The reply of a `gen_server:call`: a callback answers its own caller last. -/
def State.answer (s : State) : Option Reply :=
  match s.out.getLast? with
  | some (.reply _ r) => some r
  | _                 => none

@[simp] theorem answer_emit (s : State) (frm : From) (r : Reply) :
    (s.emit (.reply frm r)).answer = some r := by
  simp [State.answer, State.emit]

namespace Index

variable (i : Index) (key : CacheKey)

/-- Replace the entry of a key. -/
def setEntry (e : Option Entry) : Index := { i with entry := Function.update i.entry key e }

/-- Replace the claim of a key. -/
def setClaim (c : Option Claim) : Index := { i with claim := Function.update i.claim key c }

/-- A writer gets the key: a placeholder entry and a claim with a fresh token. -/
def reserve (tier : Tier) (pid : Pid) : Index :=
  { (i.setEntry key (some ⟨.writing, tier, 0, [], .undefined, none, 0⟩)).setClaim key
      (some ⟨pid, i.nextRef + 1, i.nextRef, .preLink, tier, none⟩) with
    nextRef := i.nextRef + 2 }

/-- The claim has linked its file. -/
def mark (c : Claim) (path : Path) : Index :=
  i.setClaim key (some { c with stage := .postLink, path := some path })

/-- The key becomes available and its claim is spent. -/
def publish (tier : Tier) (path : Option Path) (size : Nat) (header : Bytes)
    (tokensBin : Option Bytes) (textBytes : Nat) : Index :=
  (i.setEntry key (some ⟨.available, tier, size, header, locationFor tier path, tokensBin,
    textBytes⟩)).setClaim key none

/-- The key loses its entry and its claim. -/
def forget : Index := (i.setEntry key none).setClaim key none

/-- A file leaves the directory, unless the deletion fails. -/
def unlink (env : Env) (path : Option Path) : Index :=
  match path with
  | none   => i
  | some p =>
    { i with files := if env.fails .delete p then i.files else Function.update i.files p none }

/-- What `validate_and_adopt/2` reads in these files. -/
def validate (deps : Deps) (env : Env) (path : Option Path) : Option Adopted :=
  (path.bind fun p => if env.fails .read p then none else i.files p).bind fun bin =>
    (deps.parse bin key).map fun info =>
      { size := bin.length, header := bin.take 48, tokensBin := encodeTokens info.tokens,
        textBytes := info.promptText.length }

/-- `cleanup_by_stage/3` on the index. -/
def cleanup (deps : Deps) (env : Env) (c : Claim) : Index :=
  match c.stage with
  | .preLink  => i.forget key
  | .postLink =>
    match i.validate key deps env c.path with
    | some a => i.publish key c.tier c.path a.size a.header (some a.tokensBin) a.textBytes
    | none   => (i.unlink env c.path).forget key

/-- The file at the location has its hit count rewritten. -/
def touch (env : Env) (loc : Location) (hits : Nat) : Index :=
  match loc with
  | .disk (some p) | .ramFile (some p) =>
    if env.fails .openFile p then i
    else
      { i with
        files := Function.update i.files p
          (some (writeAt 12 (u32le hits) ((i.files p).getD []))) }
  | _ => i

/-- `delete_from_tier/3` on the index: the file of an entry leaves the directory. -/
def deletePayload (env : Env) (tier : Tier) (loc : Location) : Index :=
  match tier, loc with
  | .disk, .disk path       => i.unlink env path
  | .ramFile, .ramFile path => i.unlink env path
  | _, _                    => i

/-- One eviction: an available key loses its file and its entry. -/
inductive Evicts (env : Env) : Index → Index → Prop
  | evict (i : Index) (key : CacheKey) (e : Entry) (he : i.entry key = some e)
      (hav : e.status = .available) :
      Evicts env i ((i.deletePayload env e.tier e.location).setEntry key none)

/-! ### Reading an updated index -/

@[simp] theorem entry_setEntry (e : Option Entry) (k : CacheKey) :
    (i.setEntry key e).entry k = if k = key then e else i.entry k := Function.update_apply ..

@[simp] theorem claim_setEntry (e : Option Entry) : (i.setEntry key e).claim = i.claim := rfl
@[simp] theorem files_setEntry (e : Option Entry) : (i.setEntry key e).files = i.files := rfl
@[simp] theorem nextRef_setEntry (e : Option Entry) :
    (i.setEntry key e).nextRef = i.nextRef := rfl

@[simp] theorem claim_setClaim (c : Option Claim) (k : CacheKey) :
    (i.setClaim key c).claim k = if k = key then c else i.claim k := Function.update_apply ..

@[simp] theorem entry_setClaim (c : Option Claim) : (i.setClaim key c).entry = i.entry := rfl
@[simp] theorem files_setClaim (c : Option Claim) : (i.setClaim key c).files = i.files := rfl
@[simp] theorem nextRef_setClaim (c : Option Claim) :
    (i.setClaim key c).nextRef = i.nextRef := rfl

@[simp] theorem entry_unlink (path : Option Path) : (i.unlink env path).entry = i.entry := by
  cases path <;> rfl
@[simp] theorem claim_unlink (path : Option Path) : (i.unlink env path).claim = i.claim := by
  cases path <;> rfl
variable (env) in
@[simp] theorem nextRef_unlink (path : Option Path) :
    (i.unlink env path).nextRef = i.nextRef := by
  cases path <;> rfl

variable (env) in
/-- Deleting a payload changes files only. -/
theorem deletePayload_frame (tier : Tier) (loc : Location) :
    (i.deletePayload env tier loc).entry = i.entry ∧
      (i.deletePayload env tier loc).claim = i.claim ∧
      (i.deletePayload env tier loc).nextRef = i.nextRef := by
  unfold deletePayload
  split
  · exact ⟨entry_unlink i _, claim_unlink i _, nextRef_unlink _ i _⟩
  · exact ⟨entry_unlink i _, claim_unlink i _, nextRef_unlink _ i _⟩
  · exact ⟨rfl, rfl, rfl⟩

theorem nextRef_cleanup (c : Claim) : (i.cleanup key deps env c).nextRef = i.nextRef := by
  unfold cleanup
  cases c.stage with
  | preLink  => rfl
  | postLink =>
    cases i.validate key deps env c.path with
    | some a => rfl
    | none   => exact nextRef_unlink _ i _

variable (env) in
/-- Rewriting a hit count changes files only. -/
theorem touch_frame (loc : Location) (hits : Nat) :
    (i.touch env loc hits).entry = i.entry ∧ (i.touch env loc hits).claim = i.claim ∧
      (i.touch env loc hits).nextRef = i.nextRef := by
  unfold touch
  split
  · split <;> exact ⟨rfl, rfl, rfl⟩
  · split <;> exact ⟨rfl, rfl, rfl⟩
  · exact ⟨rfl, rfl, rfl⟩

end Index

/-! ### The operations of the server on its index -/

section Operations

variable (s : State) (key : CacheKey)

@[simp] theorem index_entry (k : CacheKey) :
    s.index.entry k = (s.metaTbl.lookup k).map Row.entry := rfl
@[simp] theorem index_claim (k : CacheKey) :
    s.index.claim k = (s.reservations.lookup k).map Reservation.claim := rfl
@[simp] theorem index_files : s.index.files = s.files := rfl
@[simp] theorem index_nextRef : s.index.nextRef = s.nextRef := rfl

@[simp] theorem index_emit (o : Out) : (s.emit o).index = s.index := rfl
@[simp] theorem index_readClock : s.readClock.index = s.index := rfl
@[simp] theorem index_startCallback : s.startCallback.index = s.index := rfl

/-- Writing a row gives its key the row's entry. -/
theorem entry_insert (t : Table CacheKey Row) (r : Row) :
    (fun k => ((t.insert key r).lookup k).map Row.entry) =
      Function.update (fun k => (t.lookup k).map Row.entry) key (some r.entry) := by
  funext k
  rw [AList.lookup_insert_ite, Function.update_apply]
  split <;> rfl

/-- Writing a reservation gives its key the reservation's claim. -/
theorem claim_insert (t : Table CacheKey Reservation) (r : Reservation) :
    (fun k => ((t.insert key r).lookup k).map Reservation.claim) =
      Function.update (fun k => (t.lookup k).map Reservation.claim) key (some r.claim) := by
  funext k
  rw [AList.lookup_insert_ite, Function.update_apply]
  split <;> rfl

/-- A column update that an entry does not show keeps every entry. -/
theorem entry_update (t : Table CacheKey Row) {f : Row → Row}
    (hf : ∀ r, (f r).entry = r.entry) :
    (fun k => ((t.update key f).lookup k).map Row.entry) =
      fun k => (t.lookup k).map Row.entry := by
  funext k
  rw [AList.lookup_update]
  split
  · rename_i h
    rw [h, Option.map_map]
    exact Option.map_congr fun r _ => hf r
  · rfl

/-- Deleting a row takes the key's entry away. -/
@[simp] theorem index_deleteRow : (s.deleteRow key).index = s.index.setEntry key none := by
  refine Index.ext ?_ rfl rfl rfl
  funext k
  rw [Index.entry_setEntry]
  simp only [index_entry, metaTbl_deleteRow, AList.lookup_erase_ite]
  split <;> rfl

/-- Removing a reservation takes the key's claim away. -/
@[simp] theorem index_removeReservation :
    (s.removeReservation key).index = s.index.setClaim key none := by
  refine Index.ext rfl ?_ rfl rfl
  funext k
  rw [Index.claim_setClaim]
  simp only [index_claim, reservations_removeReservation, AList.lookup_erase_ite]
  split <;> rfl

/-- A refcount is no part of the index. -/
@[simp] theorem index_decrementRefcount : (decrementRefcount key s).index = s.index :=
  Index.ext (entry_update key s.metaTbl fun _ => rfl) rfl rfl rfl

/-- A pin flag is no part of the index. -/
@[simp] theorem index_setPinnedFlag (b : Bool) : (setPinnedFlag key b s).index = s.index :=
  Index.ext (entry_update key s.metaTbl fun _ => rfl) rfl rfl rfl

/-- Restoring a pin keeps the index. -/
@[simp] theorem index_maybeRestorePin : (maybeRestorePin key s).index = s.index := by
  rcases maybeRestorePin_cases s key with h | h
  · rw [h]
  · rw [h, index_setPinnedFlag]

/-- Answering the waiters keeps the index. -/
@[simp] theorem index_notifyWaiters : (notifyWaiters key s).index = s.index := by
  obtain ⟨ws, out, h, -⟩ := notifyWaiters_frame s key key
  rw [h]
  rfl

/-- Pinning keeps the index. -/
@[simp] theorem index_doPinRow (ns : Digest) : (doPinRow ns key s).index = s.index := by
  unfold doPinRow
  have hpin : ∀ s1 : State, s1.index = s.index →
      ({ setPinnedFlag key true s1 with
        pinned := (setPinnedFlag key true s1).pinned.insert ns key } : State).index = s.index :=
    fun s1 h => (index_setPinnedFlag s1 key true).trans h
  refine hpin _ ?_
  split
  · rfl
  · split
    · rfl
    · exact index_setPinnedFlag s _ false

/-- A parked lookup takes a reference. -/
@[simp] theorem index_addWaiter (frm : From) (ms : Nat) :
    (addWaiter env key frm ms s).index = { s.index with nextRef := s.nextRef + 1 } := rfl

/-- A waiter that gives up keeps the index. -/
@[simp] theorem index_expireWaiter (frm : From) : (expireWaiter key frm s).index = s.index := by
  unfold expireWaiter
  dsimp only
  split
  · split <;> rfl
  · rfl

/-- Deleting a file unlinks it. -/
@[simp] theorem index_deleteFile (path : Option Path) :
    (deleteFile env key path s).index = s.index.unlink env path := by
  cases path <;> rfl

/-- Installing a row gives its key an available entry. -/
@[simp] theorem index_installAvailableRow (tier : Tier) (size : Nat) (header : Bytes)
    (loc : Location) (tokensBin : Option Bytes) (textBytes : Nat) :
    (installAvailableRow env key tier size header loc tokensBin textBytes s).index =
      s.index.setEntry key
        (some ⟨.available, tier, size, header, loc, tokensBin, textBytes⟩) :=
  Index.ext (entry_insert key s.metaTbl _) rfl rfl rfl

/-- Adopting a file publishes its row and ends the claim. -/
@[simp] theorem index_adoptRow (tier : Tier) (path : Option Path) (size : Nat) (header : Bytes)
    (tokensBin : Option Bytes) (textBytes : Nat) :
    (adoptRow env key tier path size header tokensBin textBytes s).index =
      s.index.publish key tier path size header tokensBin textBytes := by
  simp only [adoptRow, index_notifyWaiters, index_removeReservation, index_maybeRestorePin,
    index_installAvailableRow]
  rfl

/-- A grant reserves the key. -/
@[simp] theorem index_createReservation (tier : Tier) (pid : Pid) (frm : From) :
    (createReservation env key tier pid frm s).index = s.index.reserve key tier pid :=
  Index.ext (entry_insert key s.metaTbl _) (claim_insert key s.reservations _) rfl rfl

/-- **Cleanup.** The server's cleanup of a reservation is the index's cleanup of its claim. -/
@[simp] theorem index_cleanupByStage (r : Reservation) :
    (cleanupByStage deps env key r s).index = s.index.cleanup key deps env r.claim := by
  have hvalidate : validateAndAdopt deps env key r.path s =
      s.index.validate key deps env r.claim.path := rfl
  have hstage : r.claim.stage = r.stage := rfl
  unfold cleanupByStage Index.cleanup
  rw [hvalidate, hstage]
  cases r.stage with
  | preLink  => simp only [index_removeReservation, index_deleteRow, Index.forget]
  | postLink =>
    cases s.index.validate key deps env r.claim.path with
    | some a => exact index_adoptRow s key _ _ _ _ _ _
    | none   =>
      simp only [index_removeReservation, index_deleteRow, index_deleteFile, Index.forget]
      rfl

/-- Asking whether a writer is live keeps the index. -/
@[simp] theorem index_afterIsLive (r : Reservation) : (afterIsLive env r s).index = s.index := by
  unfold afterIsLive
  split <;> rfl

variable (env) in
/-- Persisting a hit count rewrites it in the row's file. -/
@[simp] theorem index_persistHits (loc : Location) (hits : Nat) :
    (persistHits env loc hits s).index = s.index.touch env loc hits := by
  have htouch : ∀ p, (touchHits env p hits s).index =
      s.index.touch env (.disk (some p)) hits := by
    intro p
    unfold touchHits Index.touch
    dsimp only
    split <;> rfl
  unfold persistHits
  split
  · exact htouch _
  · exact htouch _
  · rename_i hdisk hram
    unfold Index.touch
    split
    · exact absurd rfl (hdisk _)
    · exact absurd rfl (hram _)
    · rfl

/-- Deleting a payload, in terms of the index. -/
@[simp] theorem index_deleteFromTier (tier : Tier) (loc : Location) :
    (deleteFromTier env tier key loc s).index = s.index.deletePayload env tier loc := by
  cases tier with
  | ram     => rfl
  | disk    =>
    cases loc with
    | disk path => exact index_deleteFile s key path
    | undefined | ram | ramFile => rfl
  | ramFile =>
    cases loc with
    | ramFile path => exact index_deleteFile s key path
    | undefined | ram | disk => rfl

/-! ### The callbacks on the index -/

/-- A successful checkout rewrites the hit count in the row's file. -/
theorem index_doCheckout (pid : Pid) {row : Row} (hrow : s.metaTbl.lookup key = some row)
    (frm : From) :
    (doCheckout env key pid row frm s).index =
      { s.index.touch env row.location (row.hits + 1) with nextRef := s.nextRef + 1 } := by
  obtain ⟨hentry, hclaim, hnext⟩ := Index.touch_frame env s.index row.location
    (row.hits + 1)
  have hpersist := index_persistHits env s row.location (row.hits + 1)
  obtain ⟨files, hfiles⟩ := persistHits_frame s env row.location (row.hits + 1)
  rw [← hpersist, hfiles]
  simp only [doCheckout, hfiles, index_emit]
  refine Index.ext ?_ rfl rfl rfl
  refine (entry_insert key s.metaTbl _).trans ?_
  refine Function.update_eq_self_iff.mpr ?_
  rw [hrow]
  rfl

variable (env) in
/-- A checkout touches the file of the row it takes out, or nothing. -/
theorem index_handleCheckout (pid : Pid) (frm : From) :
    (handleCheckout env key pid frm s).index = s.index ∨
      ∃ row, s.metaTbl.lookup key = some row ∧ row.status = .available ∧
        (handleCheckout env key pid frm s).index =
          { s.index.touch env row.location (row.hits + 1) with nextRef := s.nextRef + 1 } := by
  unfold handleCheckout
  cases hrow : s.metaTbl.lookup key with
  | none     => exact Or.inl rfl
  | some row =>
    by_cases hav : row.status = .available
    · simp only [hav, ↓reduceIte]
      exact Or.inr ⟨row, rfl, hav, index_doCheckout s key pid hrow frm⟩
    · simp only [hav, ↓reduceIte]
      exact Or.inl rfl

/-- A checkin keeps the index. -/
@[simp] theorem index_handleCheckin (monRef : Ref) (frm : From) :
    (handleCheckin monRef frm s).index = s.index := by
  unfold handleCheckin
  cases s.holders.lookup monRef with
  | none   => rfl
  | some v =>
    rw [index_emit, index_decrementRefcount]
    rfl

variable (env) in
/-- A lookup takes at most a reference. -/
theorem index_handleLookupOrWait (ms : Nat) (frm : From) :
    ∃ n, s.nextRef ≤ n ∧
      (handleLookupOrWait env key ms frm s).index = { s.index with nextRef := n } := by
  unfold handleLookupOrWait
  cases s.metaTbl.lookup key with
  | none     => exact ⟨s.nextRef, le_rfl, rfl⟩
  | some row =>
    dsimp only
    cases row.status with
    | available => exact ⟨s.nextRef, le_rfl, rfl⟩
    | evicting  => exact ⟨s.nextRef, le_rfl, rfl⟩
    | writing   =>
      dsimp only
      split
      · exact ⟨s.nextRef + 1, Nat.le_succ _, rfl⟩
      · exact ⟨s.nextRef, le_rfl, rfl⟩

/-- A claim's token decides the reservation calls. -/
theorem reservationWith_eq_none_iff (token : Ref) :
    s.reservationWith key token = none ↔
      ∀ c, s.index.claim key = some c → c.token ≠ token := by
  simp only [State.reservationWith, index_claim]
  cases s.reservations.lookup key with
  | none   => simp
  | some r => simp [Reservation.claim]

/-- What a token finds is the reservation of the key that carries it. -/
theorem reservationWith_eq_some_iff {token : Ref} {r : Reservation} :
    s.reservationWith key token = some r ↔
      s.reservations.lookup key = some r ∧ r.token = token := by
  simp [State.reservationWith, Option.filter_eq_some_iff]

/-- Checking a token keeps the index. -/
@[simp] theorem index_handleCheckReservation (token : Ref) (frm : From) :
    (handleCheckReservation env key token frm s).index = s.index := by
  unfold handleCheckReservation
  cases hr : s.reservationWith key token with
  | none   => rfl
  | some r =>
    obtain ⟨hlookup, -⟩ := (reservationWith_eq_some_iff s key).mp hr
    refine Index.ext rfl ?_ rfl rfl
    refine (claim_insert key s.reservations _).trans (Function.update_eq_self_iff.mpr ?_)
    rw [hlookup]
    rfl

/-- A mark under the token marks the claim. -/
theorem index_handleMarkPublished {token : Ref} {r : Reservation}
    (hr : s.reservationWith key token = some r) (path : Path) (frm : From) :
    (handleMarkPublished env key token path frm s).index = s.index.mark key r.claim path := by
  simp only [handleMarkPublished, hr]
  exact Index.ext rfl (claim_insert key s.reservations _) rfl rfl

/-- An announcement under the token publishes the row and ends the claim. -/
theorem index_handleAnnounceSaved {token : Ref} {r : Reservation}
    (hr : s.reservationWith key token = some r) (size : Nat) (header : Bytes)
    (tokensBin : Option Bytes) (textBytes : Nat) (frm : From) :
    (handleAnnounceSaved env key token size header tokensBin textBytes frm s).index =
      s.index.publish key r.tier r.path size header tokensBin textBytes := by
  simp only [handleAnnounceSaved, hr, index_emit, index_adoptRow]

/-- A cancellation under the token forgets the key. -/
theorem index_handleCancelReservation {token : Ref} {r : Reservation}
    (hr : s.reservationWith key token = some r) (frm : From) :
    (handleCancelReservation key token frm s).index = s.index.forget key := by
  simp only [handleCancelReservation, hr, index_emit, index_removeReservation,
    index_deleteRow, Index.forget]

variable (env) in
/-- A direct insert writes the entry, whatever claim the key has. -/
@[simp] theorem index_handleInsertAvailable (tier : Tier) (size : Nat) (header : Bytes)
    (loc : Location) (tokensBin : Option Bytes) (textBytes : Nat) (frm : From) :
    (handleInsertAvailable env key tier size header loc tokensBin textBytes frm s).index =
      s.index.setEntry key
        (some ⟨.available, tier, size, header, loc, tokensBin, textBytes⟩) := by
  simp only [handleInsertAvailable, index_emit, index_notifyWaiters, index_maybeRestorePin,
    index_installAvailableRow]

/-- The caller is told the token. -/
@[simp] theorem answer_createReservation (tier : Tier) (pid : Pid) (frm : From) :
    (createReservation env key tier pid frm s).answer = some (.token (s.nextRef + 1)) :=
  answer_emit _ _ _

/-- A cleanup hands out no reference. -/
theorem nextRef_cleanupByStage (r : Reservation) :
    (cleanupByStage deps env key r s).nextRef = s.nextRef := by
  have h : (cleanupByStage deps env key r s).index.nextRef = s.nextRef := by
    rw [index_cleanupByStage, Index.nextRef_cleanup]
    rfl
  exact h

/-- Asking whether a writer is live hands out no reference. -/
theorem nextRef_afterIsLive (r : Reservation) : (afterIsLive env r s).nextRef = s.nextRef := by
  unfold afterIsLive
  split <;> rfl

variable (deps env) in
/-- A reserve-save is refused and changes nothing, or it grants a fresh token and makes the
    key the writer's, after at most the cleanup of a stale claim.  Only a key without an
    available entry is reserved. -/
theorem index_doReserveSave (tier : Tier) (pid : Pid) (frm : From) :
    ((doReserveSave deps env key tier pid frm s).index = s.index ∧
        ∀ t, (doReserveSave deps env key tier pid frm s).answer ≠ some (.token t)) ∨
      (∀ e, s.index.entry key = some e → e.status = .writing) ∧
        (doReserveSave deps env key tier pid frm s).answer = some (.token (s.nextRef + 1)) ∧
        ((s.index.entry key = none ∨ s.index.claim key = none) ∧
            (doReserveSave deps env key tier pid frm s).index = s.index.reserve key tier pid ∨
          ∃ c, s.index.claim key = some c ∧
            (doReserveSave deps env key tier pid frm s).index =
              (s.index.cleanup key deps env c).reserve key tier pid) := by
  unfold doReserveSave State.status
  cases hrow : s.metaTbl.lookup key with
  | none =>
    refine Or.inr ⟨by simp [hrow], answer_createReservation s key tier pid frm,
      Or.inl ⟨Or.inl (by simp [hrow]), ?_⟩⟩
    exact index_createReservation s key tier pid frm
  | some row =>
    rw [Option.map_some]
    cases hst : row.status with
    | available => exact Or.inl ⟨rfl, by simp⟩
    | evicting  => exact Or.inl ⟨rfl, by simp⟩
    | writing   =>
      have hwriting : ∀ e, s.index.entry key = some e → e.status = .writing := by
        simp [hrow, Row.entry, hst]
      dsimp only
      unfold handleExistingWritingRow
      cases hres : s.reservations.lookup key with
      | none =>
        refine Or.inr ⟨hwriting, answer_createReservation _ key tier pid frm,
          Or.inl ⟨Or.inr (by simp [hres]), ?_⟩⟩
        rw [index_createReservation, index_deleteRow]
        simp only [Index.reserve, Index.setEntry, Index.setClaim, Function.update_idem]
      | some old =>
        dsimp only
        split
        · exact Or.inl ⟨by rw [index_emit, index_afterIsLive], by simp⟩
        · refine Or.inr ⟨hwriting, ?_, Or.inr ⟨old.claim, by simp [hres], ?_⟩⟩
          · rw [answer_createReservation, nextRef_cleanupByStage, nextRef_afterIsLive]
          · rw [index_createReservation, index_cleanupByStage, index_afterIsLive]

variable (deps env) in
/-- A `DOWN` cleans up the claim whose monitor fired, or changes nothing. -/
theorem index_handleDown (ref : Ref) :
    (handleDown deps env ref s).index = s.index ∨
      ∃ k r, s.holders.lookup ref = none ∧
        findReservationByMonref ref s.reservations = some (k, r) ∧
        (handleDown deps env ref s).index = s.index.cleanup k deps env r.claim := by
  rcases handleDown_cases deps env s ref with
    ⟨pid, k, -, heq⟩ | ⟨hnone, ⟨-, heq⟩ | ⟨k, r, hfind, heq⟩⟩
  · left
    rw [heq, index_decrementRefcount]
    rfl
  · exact Or.inl (by rw [heq])
  · refine Or.inr ⟨k, r, hnone, hfind, ?_⟩
    rw [heq, index_cleanupByStage]

/-- A sweep cleans up the stale claims one after the other. -/
theorem index_sweepReservations :
    (sweepReservations deps env s).index =
      (staleReservations env (env.monotonicNs s.reads) s.reservations).foldl
        (fun i e => i.cleanup e.1 deps env e.2.claim) s.index := by
  unfold sweepReservations
  generalize staleReservations env (env.monotonicNs s.reads) s.reservations = l
  rw [← index_readClock s]
  generalize s.readClock = s'
  induction l generalizing s' with
  | nil => rfl
  | cons e l ih => rw [List.foldl_cons, ih, List.foldl_cons, index_cleanupByStage]

/-! ### Evictions on the index -/

variable (env) in
/-- One try evicts its row, or nothing. -/
theorem index_tryEvictOne (lruKey : LruKey) (liveKey : Option CacheKey) (mode : EvictMode) :
    (tryEvictOne env lruKey key liveKey mode s).2.index = s.index ∨
      Index.Evicts env s.index (tryEvictOne env lruKey key liveKey mode s).2.index := by
  unfold tryEvictOne
  cases hrow : s.metaTbl.lookup key with
  | none     => exact Or.inl rfl
  | some row =>
    dsimp only
    split
    · rename_i h
      right
      have hentry : s.index.entry key = some row.entry := by
        rw [index_entry, hrow]
        rfl
      have hevict : Index.Evicts env s.index _ := .evict s.index key row.entry hentry h.1
      have heq : ({ (deleteFromTier env row.tier key row.location s).deleteRow key with
            lru := (deleteFromTier env row.tier key row.location s).lru.erase lruKey } :
              State).index =
          (s.index.deletePayload env row.entry.tier row.entry.location).setEntry key none :=
        (index_deleteRow _ key).trans (by rw [index_deleteFromTier]; rfl)
      exact heq ▸ hevict
    · exact Or.inl rfl

variable (env) in
/-- A full eviction pass is a sequence of evictions. -/
theorem index_runEvictionFrom (liveKey : Option CacheKey) (fuel : Nat) (o : Option LruKey)
    (n : Nat) :
    Relation.ReflTransGen (Index.Evicts env) s.index
      (runEvictionFrom env fuel o liveKey n s).2.index := by
  induction fuel generalizing o n s with
  | zero => exact Relation.ReflTransGen.refl
  | succ fuel ih =>
    cases o with
    | none        => exact Relation.ReflTransGen.refl
    | some lruKey =>
      have hone := index_tryEvictOne env s (ofLex lruKey).2 lruKey liveKey .protect
      unfold runEvictionFrom
      generalize tryEvictOne env lruKey (ofLex lruKey).2 liveKey .protect s = r at hone
      obtain ⟨size, s1⟩ := r
      have hgo : ∀ (next : Option LruKey) (m : Nat), Relation.ReflTransGen (Index.Evicts env)
          s.index (runEvictionFrom env fuel next liveKey m s1).2.index := by
        intro next m
        rcases hone with heq | hevict
        · exact heq ▸ ih s1 next m
        · exact (Relation.ReflTransGen.single hevict).trans (ih s1 next m)
      cases size with
      | none   => exact hgo _ _
      | some b => exact hgo _ _

variable (env) in
/-- So is a byte-targeted pass. -/
theorem index_evictSorted (cs : List Candidate) (target n bytes : Nat) :
    Relation.ReflTransGen (Index.Evicts env) s.index
      (evictSorted env cs target n bytes s).2.index := by
  induction cs generalizing n bytes s with
  | nil => exact Relation.ReflTransGen.refl
  | cons c cs ih =>
    unfold evictSorted
    split
    · exact Relation.ReflTransGen.refl
    · have hone := index_tryEvictOne env s c.key c.lruKey none .allow
      generalize tryEvictOne env c.lruKey c.key none .allow s = r at hone
      obtain ⟨size, s1⟩ := r
      have hgo : ∀ m b, Relation.ReflTransGen (Index.Evicts env) s.index
          (evictSorted env cs target m b s1).2.index := by
        intro m b
        rcases hone with heq | hevict
        · exact heq ▸ ih s1 m b
        · exact (Relation.ReflTransGen.single hevict).trans (ih s1 m b)
      cases size with
      | none   => exact hgo _ _
      | some b => exact hgo _ _

variable (deps env) in
/-- A `gc` is a number of evictions. -/
theorem index_gc (frm : From) :
    Relation.ReflTransGen (Index.Evicts env) s.index (step deps s ⟨env, frm, .gc⟩).index := by
  have hstep : step deps s ⟨env, frm, .gc⟩ =
      (runEviction env s.liveKey s.startCallback).2.emit
        (.reply frm (.evicted (runEviction env s.liveKey s.startCallback).1)) := rfl
  rw [hstep, index_emit]
  exact index_runEvictionFrom env s.startCallback _ _ _ _

variable (deps env) in
/-- An `evict_bytes` is a number of evictions. -/
theorem index_evictBytes (frm : From) (target : Nat) (tiers : Option (List Tier)) :
    Relation.ReflTransGen (Index.Evicts env) s.index
      (step deps s ⟨env, frm, .evictBytes target tiers⟩).index := by
  unfold step
  dsimp only
  split
  · exact Relation.ReflTransGen.refl
  · rw [index_emit]
    exact index_evictSorted env s.startCallback.readClock _ _ _ _

end Operations

end Erllama.MetaSrv
