import Erllama.MetaSrv.LruMirror

namespace Erllama.MetaSrv

open Lib

/-!
# What callbacks do to rows, pins and waiters

The statements about the LRU walk, the pins and the waiters are about five things: the row
of each key, the LRU table, the pinned map, the waiters of each key and the effects.
`State.view` shows these and nothing else.

* `View.Move` — the ways a callback changes the view, one constructor each, with what the
  callback has checked.
* `step_moves` — every message is a sequence of moves, and what it then answers.
* `View.Moves.keeps` — a property that every move keeps is kept by a sequence of moves.

An invariant of the server is proved once for each move.
-/

variable {deps : Deps} {env : Env}

/-- Rows, LRU table, pins, parked lookups and effects. -/
structure View where
  row : CacheKey → Option Row
  lru : Finset LruKey
  pinned : Table Digest CacheKey
  parked : CacheKey → List Waiter
  out : List Out

/-- The view of a state. -/
def State.view (s : State) : View where
  row key := s.metaTbl.lookup key
  lru := s.lru
  pinned := s.pinned
  parked key := (s.waiters.lookup key).getD []
  out := s.out

namespace View

/-- Record effects. -/
def emit (v : View) (o : List Out) : View := { v with out := v.out ++ o }

/-- Give a key a row, or take its row away. -/
def setRow (v : View) (key : CacheKey) (r : Option Row) : View :=
  { v with row := Function.update v.row key r }

/-- The LRU table without the entry of the row the key has. -/
def lruWithout (v : View) (key : CacheKey) : Finset LruKey :=
  match v.row key with
  | some old => v.lru.erase (toLex (old.lastUsed, key))
  | none     => v.lru

/-- The row as it is published: pinned iff some namespace has pinned its key. -/
def restored (v : View) (key : CacheKey) (r : Row) : Row :=
  { r with pinned := decide (key ∈ v.pinned.values) }

/-- A row is published: its LRU entry moves and the waiters of the key get the row. -/
def publish (v : View) (key : CacheKey) (r : Row) : View where
  row := Function.update v.row key (some (v.restored key r))
  lru := insert (toLex (r.lastUsed, key)) (v.lruWithout key)
  pinned := v.pinned
  parked := Function.update v.parked key []
  out := v.out ++ (v.parked key).flatMap fun w =>
    [.cancelTimer w.tref, .reply w.frm (.row (v.restored key r))]

/-- A reader takes an available row out: its LRU entry moves to `t`. -/
def checkout (v : View) (key : CacheKey) (r : Row) (t : Int) : View where
  row := Function.update v.row key
    (some { r with hits := r.hits + 1, refcount := r.refcount + 1, lastUsed := t })
  lru := insert (toLex (t, key)) (v.lru.erase (toLex (r.lastUsed, key)))
  pinned := v.pinned
  parked := v.parked
  out := v.out

/-- An LRU entry leaves, with the row of its key if there is one. -/
def evict (v : View) (lruKey : LruKey) : View where
  row := Function.update v.row (ofLex lruKey).2 none
  lru := v.lru.erase lruKey
  pinned := v.pinned
  parked := v.parked
  out := v.out

/-- Set the pin flag of a key's row. -/
def setPin (v : View) (key : CacheKey) (b : Bool) : View :=
  v.setRow key ((v.row key).map fun r => { r with pinned := b })

/-- The namespace's prior key loses its flag, the new one gets it. -/
def pin (v : View) (ns : Digest) (key : CacheKey) : View :=
  let v1 :=
    match v.pinned.lookup ns with
    | none       => v
    | some other => if other = key then v else v.setPin other false
  { v1.setPin key true with pinned := v.pinned.insert ns key }

/-- A lookup waits. -/
def park (v : View) (key : CacheKey) (w : Waiter) (ms : Nat) : View :=
  { v with
    parked := Function.update v.parked key (w :: v.parked key)
    out := v.out ++ [.sendAfter w.tref ms key w.frm] }

/-- The first waiter of that caller gives up. -/
def expire (v : View) (key : CacheKey) (frm : From) : View :=
  { v with
    parked := Function.update v.parked key ((v.parked key).eraseP fun w => w.frm = frm)
    out := v.out ++ [.reply frm .miss] }

end View

/-- The location is one of the tier: what the writers and the scan of a tier's directory
    register. -/
def Location.Fits : Location → Tier → Prop
  | .ram,       .ram     => True
  | .ramFile _, .ramFile => True
  | .disk _,    .disk    => True
  | _,          _        => False

instance (loc : Location) (tier : Tier) : Decidable (loc.Fits tier) := by
  unfold Location.Fits
  split <;> infer_instance

/-- A tier's location for a path is one of the tier. -/
theorem locationFor_fits (tier : Tier) (path : Option Path) :
    (locationFor tier path).Fits tier := by
  cases tier <;> trivial

/-- The message registers a row of that tier at that location. -/
def Msg.Inserts (msg : Msg) (tier : Tier) (loc : Location) : Prop :=
  ∃ key size header tokensBin textBytes,
    msg = .insertAvailable key tier size header loc tokensBin textBytes

/-- The messages whose callback may publish a row: a save is adopted or a row registered. -/
def Msg.publishes : Msg → Bool
  | .reserveSave _ _ _ | .announceSaved _ _ _ _ _ _ | .insertAvailable _ _ _ _ _ _ _
  | .down _ | .sweep => true
  | _ => false

/-- The effect deletes a payload. -/
def Out.IsDeletion : Out → Prop
  | .deleteSlab _ | .deleteFile _ _ => True
  | _                               => False

/-- One change of the view while the server handles `msg`. -/
inductive View.Move (msg : Msg) : View → View → Prop
  | delete (v : View) (o : List Out) (ho : ∀ x ∈ o, x.IsDeletion) : Move msg v (v.emit o)
  | count (v : View) (key : CacheKey) (n : Nat → Nat) :
      Move msg v (v.setRow key ((v.row key).map fun r => { r with refcount := n r.refcount }))
  | checkout (v : View) (key : CacheKey) (r : Row) (t : Int) (hr : v.row key = some r)
      (hav : r.status = .available) : Move msg v (v.checkout key r t)
  | publish (v : View) (key : CacheKey) (r : Row) (hpub : msg.publishes = true)
      (hav : r.status = .available)
      (hloc : r.location.Fits r.tier ∨ msg.Inserts r.tier r.location) :
      Move msg v (v.publish key r)
  | remove (v : View) (key : CacheKey) : Move msg v (v.setRow key none)
  | reserve (v : View) (key : CacheKey) (r : Row) (hr : r.status = .writing) :
      Move msg v (v.setRow key (some r))
  | evict (v : View) (lruKey : LruKey) : Move msg v (v.evict lruKey)
  | pin (v : View) (ns : Digest) (key : CacheKey) (hmsg : msg = .pinRow ns key) :
      Move msg v (v.pin ns key)
  | expire (v : View) (key : CacheKey) (frm : From) (hmsg : msg = .waiterExpire key frm)
      (hw : ∃ w ∈ v.parked key, w.frm = frm) : Move msg v (v.expire key frm)

/-- A sequence of moves. -/
abbrev View.Moves (msg : Msg) := Relation.ReflTransGen (View.Move msg)

/-- A property that every move keeps. -/
theorem View.Moves.keeps {msg : Msg} {P : View → Prop}
    (hmove : ∀ v v', P v → View.Move msg v v' → P v') {v v' : View}
    (h : View.Moves msg v v') (hv : P v) : P v' := by
  induction h with
  | refl => exact hv
  | tail _ hm ih => exact hmove _ _ ih hm

/-- Every available row meets `R`. -/
def View.AvailableRows (R : CacheKey → Row → Prop) (v : View) : Prop :=
  ∀ key row, v.row key = some row → row.status = .available → R key row

/-- Rewriting the row of one key: the other rows keep what they met, the new one is shown to
    meet it. -/
theorem View.AvailableRows.of_update {R R' : CacheKey → Row → Prop} {v v' : View}
    (h : v.AvailableRows R) (key : CacheKey) {r : Option Row}
    (hrow : v'.row = Function.update v.row key r)
    (hkeep : ∀ k row, k ≠ key → R k row → R' k row)
    (hr : ∀ row, r = some row → row.status = .available → R' key row) : v'.AvailableRows R' := by
  intro k row hk hav
  rw [hrow, Function.update_apply] at hk
  split at hk
  · rename_i hkey
    subst hkey
    exact hr row hk hav
  · rename_i hne
    exact hkeep k row hne (h k row hk hav)

/-- A row is removed. -/
theorem View.AvailableRows.of_removed {R R' : CacheKey → Row → Prop} {v v' : View}
    (h : v.AvailableRows R) (key : CacheKey) (hrow : v'.row = Function.update v.row key none)
    (hkeep : ∀ k row, k ≠ key → R k row → R' k row) : v'.AvailableRows R' :=
  h.of_update key hrow hkeep fun row hr => absurd hr.symm (Option.some_ne_none row)

/-- A server that has just started has no rows. -/
theorem View.AvailableRows.init (R : CacheKey → Row → Prop) (files : Files) :
    (State.init files).view.AvailableRows R := by
  intro key row hrow
  have hnone : (State.init files).view.row key = none := rfl
  rw [hnone] at hrow
  cases hrow

/-- No move at all. -/
theorem View.Moves.of_eq {msg : Msg} {v v' : View} (h : v' = v) : View.Moves msg v v' :=
  h ▸ Relation.ReflTransGen.refl

/-- One move. -/
theorem View.Move.moves {msg : Msg} {v v' v'' : View} (h : View.Move msg v v') (heq : v'' = v') :
    View.Moves msg v v'' :=
  heq ▸ Relation.ReflTransGen.single h

/-! ### Rows after a move -/

/-- The flag and status of a row after `setPin`. -/
theorem View.setPin_row (v : View) (key : CacheKey) (b : Bool) (k : CacheKey) :
    (v.setPin key b).row k =
      if k = key then (v.row key).map fun r => { r with pinned := b } else v.row k := by
  simp only [View.setPin, View.setRow, Function.update_apply]

/-- What pinning does to the rows: the new key's flag is set, the prior key's is cleared. -/
theorem View.pin_row (v : View) (ns : Digest) (key k : CacheKey) :
    (v.pin ns key).row k =
      if k = key then (v.row k).map fun r => { r with pinned := true }
      else if v.pinned.lookup ns = some k then (v.row k).map fun r => { r with pinned := false }
      else v.row k := by
  unfold View.pin
  cases hprior : v.pinned.lookup ns with
  | none =>
    simp only [View.setPin_row, reduceCtorEq, ↓reduceIte]
    by_cases hk : k = key
    · simp [hk]
    · simp [hk]
  | some other =>
    simp only [Option.some.injEq]
    by_cases hother : other = key
    · subst hother
      by_cases hk : k = other
      · simp [View.setPin_row, hk]
      · simp [View.setPin_row, hk, Ne.symm hk]
    · by_cases hk : k = key
      · subst hk
        simp [View.setPin_row, hother, Ne.symm hother]
      · by_cases hko : k = other
        · subst hko
          simp [View.setPin_row, hk]
        · simp [View.setPin_row, hk, hother, hko, Ne.symm hko]

/-- Only the flags of rows change. -/
theorem View.exists_of_pin_row {v : View} {ns : Digest} {key k : CacheKey} {row : Row}
    (h : (v.pin ns key).row k = some row) :
    ∃ r b, v.row k = some r ∧ row = { r with pinned := b } := by
  rw [View.pin_row] at h
  split at h
  · obtain ⟨r, hr, rfl⟩ := Option.map_eq_some_iff.mp h
    exact ⟨r, true, hr, rfl⟩
  · split at h
    · obtain ⟨r, hr, rfl⟩ := Option.map_eq_some_iff.mp h
      exact ⟨r, false, hr, rfl⟩
    · exact ⟨row, row.pinned, h, rfl⟩

/-- Pinning changes flags only, so rows keep what does not depend on them. -/
theorem View.AvailableRows.of_pin {R R' : CacheKey → Row → Prop} {v : View}
    (h : v.AvailableRows R) (ns : Digest) (key : CacheKey)
    (hkeep : ∀ k r b, R k r → R' k { r with pinned := b }) : (v.pin ns key).AvailableRows R' := by
  intro k row hk hav
  obtain ⟨r, b, hr, rfl⟩ := View.exists_of_pin_row hk
  exact hkeep k r b (h k r hr hav)

/-- Pinning tells the waiters nothing. -/
theorem View.pin_parked (v : View) (ns : Digest) (key : CacheKey) :
    (v.pin ns key).parked = v.parked := by
  unfold View.pin
  cases v.pinned.lookup ns with
  | none       => rfl
  | some other =>
    dsimp only
    split <;> rfl

/-- Pinning has no effects. -/
theorem View.pin_out (v : View) (ns : Digest) (key : CacheKey) : (v.pin ns key).out = v.out := by
  unfold View.pin
  cases v.pinned.lookup ns with
  | none       => rfl
  | some other =>
    dsimp only
    split <;> rfl

/-! ### The view after an operation -/

section Operations

variable (s : State) (key : CacheKey)

/-- An effect is recorded. -/
theorem view_emit (o : Out) : (s.emit o).view = s.view.emit [o] := rfl

@[simp] theorem view_startCallback : s.startCallback.view = { s.view with out := [] } := rfl

@[simp] theorem view_readClock : s.readClock.view = s.view := rfl

@[simp] theorem view_removeReservation : (s.removeReservation key).view = s.view := rfl

/-- Writing a row. -/
theorem view_insert (r : Row) :
    { s with metaTbl := s.metaTbl.insert key r }.view = s.view.setRow key (some r) := by
  have hrow : (fun k => (s.metaTbl.insert key r).lookup k) =
      Function.update (fun k => s.metaTbl.lookup k) key (some r) := by
    funext k
    rw [AList.lookup_insert_ite, Function.update_apply]
  simp only [State.view, View.setRow, hrow]

@[simp] theorem view_deleteRow : (s.deleteRow key).view = s.view.setRow key none := by
  have hrow : (fun k => (s.metaTbl.erase key).lookup k) =
      Function.update (fun k => s.metaTbl.lookup k) key none := by
    funext k
    rw [AList.lookup_erase_ite, Function.update_apply]
  simp only [State.view, State.deleteRow, View.setRow, hrow]

/-- Rewriting a row. -/
theorem view_update (f : Row → Row) :
    { s with metaTbl := s.metaTbl.update key f }.view =
      s.view.setRow key ((s.view.row key).map f) := by
  have hrow : (fun k => (s.metaTbl.update key f).lookup k) =
      Function.update (fun k => s.metaTbl.lookup k) key ((s.metaTbl.lookup key).map f) := by
    funext k
    rw [AList.lookup_update, Function.update_apply]
  simp only [State.view, View.setRow, hrow]

/-- Setting a pin flag, in the view. -/
theorem view_setPinnedFlag (b : Bool) : (setPinnedFlag key b s).view = s.view.setPin key b :=
  view_update s key _

/-- Pinning a row for a namespace, in the view. -/
theorem view_doPinRow (ns : Digest) : (doPinRow ns key s).view = s.view.pin ns key := by
  have hlast : ∀ s1 : State, s1.pinned = s.pinned →
      { setPinnedFlag key true s1 with
        pinned := (setPinnedFlag key true s1).pinned.insert ns key }.view =
      { s1.view.setPin key true with pinned := s.pinned.insert ns key } := by
    intro s1 h
    rw [← view_setPinnedFlag, ← h]
    rfl
  unfold doPinRow View.pin
  cases h : s.pinned.lookup ns with
  | none       =>
    simp only [show s.view.pinned.lookup ns = none from h]
    exact hlast s rfl
  | some other =>
    simp only [show s.view.pinned.lookup ns = some other from h]
    split
    · exact hlast s rfl
    · rw [← view_setPinnedFlag]
      exact hlast (setPinnedFlag other false s) rfl

variable (env) in
/-- Deleting a payload is the deletion of at most one slab or file. -/
theorem view_deleteFile (path : Option Path) :
    ∃ o : List Out, (∀ x ∈ o, x.IsDeletion) ∧
      (deleteFile env key path s).view = s.view.emit o := by
  cases path with
  | none   => exact ⟨[], by simp, by simp [deleteFile, View.emit]⟩
  | some p => exact ⟨[.deleteFile key p], by simp [Out.IsDeletion], rfl⟩

variable (env) in
/-- Deleting a payload of a tier deletes at most one slab or file. -/
theorem view_deleteFromTier (tier : Tier) (loc : Location) :
    ∃ o : List Out, (∀ x ∈ o, x.IsDeletion) ∧
      (deleteFromTier env tier key loc s).view = s.view.emit o := by
  unfold deleteFromTier
  split
  · exact ⟨[.deleteSlab key], by simp [Out.IsDeletion], rfl⟩
  · exact view_deleteFile env s key _
  · exact view_deleteFile env s key _
  · exact ⟨[], by simp, by simp [View.emit]⟩

/-- The waiters of a key that has a row leave, each with the row. -/
theorem view_notifyWaiters {r : Row} (hr : s.metaTbl.lookup key = some r) :
    (notifyWaiters key s).view =
      { s.view with
        parked := Function.update s.view.parked key []
        out := s.view.out ++ (s.view.parked key).flatMap fun w =>
          [.cancelTimer w.tref, .reply w.frm (.row r)] } := by
  unfold notifyWaiters
  cases h : s.waiters.lookup key with
  | none =>
    have hnil : s.view.parked key = [] := by simp [State.view, h]
    simp only [hnil, List.flatMap_nil, List.append_nil]
    rw [← hnil, Function.update_eq_self]
  | some ws =>
    have hparked : (fun k => ((s.waiters.erase key).lookup k).getD []) =
        Function.update (fun k => (s.waiters.lookup k).getD []) key [] := by
      funext k
      rw [AList.lookup_erase_ite, Function.update_apply]
      split <;> rfl
    have hreply : lookupRow s key = .row r := by simp [lookupRow, hr]
    simp only [State.view, hparked, h, hreply, Option.getD_some]

/-- Dropping a reservation changes nothing the waiters are told. -/
theorem view_notifyWaiters_removeReservation (k : CacheKey) :
    (notifyWaiters key (s.removeReservation k)).view = (notifyWaiters key s).view := by
  unfold notifyWaiters
  rw [show (s.removeReservation k).waiters = s.waiters from rfl]
  cases s.waiters.lookup key <;> rfl

variable (env) in
/-- Installing the row, restoring its pin and answering the waiters is publishing it. -/
theorem view_published (tier : Tier) (size : Nat) (header : Bytes) (loc : Location)
    (tokensBin : Option Bytes) (textBytes : Nat) :
    ∃ r : Row, r.status = .available ∧ r.tier = tier ∧ r.location = loc ∧
      (notifyWaiters key (maybeRestorePin key (installAvailableRow env key tier size header loc
        tokensBin textBytes s))).view = s.view.publish key r := by
  let r : Row :=
    { tier := tier, size := size, lastUsed := env.monotonicNs s.reads, refcount := 0,
      status := .available, headerBin := header, location := loc, tokensRef := tokensBin,
      hits := hitsFromHeader header, textBytes := textBytes, pinned := false }
  refine ⟨r, rfl, rfl, rfl, ?_⟩
  set s1 := installAvailableRow env key tier size header loc tokensBin textBytes s with hs1
  have hinstalled : s1.view =
      { s.view.setRow key (some r) with
        lru := insert (toLex (r.lastUsed, key)) (s.view.lruWithout key) } := by
    rw [hs1, ← view_insert]
    rfl
  have hlookup : s1.metaTbl.lookup key = some r := AList.lookup_insert _
  have hpinned : s1.pinned = s.pinned := rfl
  have hrestored : (maybeRestorePin key s1).view =
      { s.view.setRow key (some (s.view.restored key r)) with
        lru := insert (toLex (r.lastUsed, key)) (s.view.lruWithout key) } := by
    unfold maybeRestorePin
    by_cases hmem : key ∈ s.pinned.values
    · have hset : s.view.restored key r = { r with pinned := true } := by
        simp [View.restored, State.view, hmem]
      rw [hpinned, if_pos hmem, view_setPinnedFlag, hinstalled, hset]
      simp [View.setPin, View.setRow]
    · have hset : s.view.restored key r = r := by
        simp [View.restored, State.view, hmem, r]
      rw [hpinned, if_neg hmem, hinstalled, hset]
  have hrow : (maybeRestorePin key s1).metaTbl.lookup key = some (s.view.restored key r) := by
    have h := congrArg (fun v => View.row v key) hrestored
    simpa [View.setRow, State.view] using h
  rw [view_notifyWaiters _ _ hrow, hrestored]
  rfl

variable (env) in
/-- Adopting a file publishes a row of its own tier. -/
theorem view_adoptRow (tier : Tier) (path : Option Path) (size : Nat) (header : Bytes)
    (tokensBin : Option Bytes) (textBytes : Nat) :
    ∃ r : Row, r.status = .available ∧ r.location.Fits r.tier ∧
      (adoptRow env key tier path size header tokensBin textBytes s).view =
        s.view.publish key r := by
  obtain ⟨r, hav, htier, hloc, hview⟩ := view_published env s key tier size header
    (locationFor tier path) tokensBin textBytes
  refine ⟨r, hav, by rw [htier, hloc]; exact locationFor_fits tier path, ?_⟩
  rw [← hview]
  exact view_notifyWaiters_removeReservation _ key key

variable (env) in
/-- A grant puts a placeholder and answers with a token. -/
theorem view_createReservation (tier : Tier) (pid : Pid) (frm : From) :
    ∃ r : Row, r.status = .writing ∧ ∃ t, (createReservation env key tier pid frm s).view =
      (s.view.setRow key (some r)).emit [.reply frm (.token t)] := by
  let r : Row :=
    { tier := tier, size := 0, lastUsed := env.monotonicNs s.reads, refcount := 0,
      status := .writing, headerBin := [], location := .undefined, tokensRef := none,
      hits := 0, textBytes := 0, pinned := false }
  refine ⟨r, rfl, s.nextRef + 1, ?_⟩
  rw [← view_insert]
  rfl

/-- Asking whether a writer is live changes nothing that is seen. -/
theorem view_afterIsLive (r : Reservation) : (afterIsLive env r s).view = s.view := by
  unfold afterIsLive
  split <;> rfl

/-- A holder that leaves changes one refcount. -/
theorem view_decrementRefcount : (decrementRefcount key s).view = s.view.setRow key
    ((s.view.row key).map fun r => { r with refcount := r.refcount - 1 }) :=
  view_update s key _

variable (env) in
/-- A checkout takes the row out and answers. -/
theorem view_doCheckout (pid : Pid) (row : Row) (frm : From) :
    ∃ t, ∃ reply, (doCheckout env key pid row frm s).view =
      (s.view.checkout key row t).emit [.reply frm reply] := by
  obtain ⟨files, hfiles⟩ := persistHits_frame s env row.location (row.hits + 1)
  refine ⟨env.monotonicNs s.reads,
    .checkedOut s.nextRef row.tier row.location row.headerBin row.tokensRef, ?_⟩
  simp only [doCheckout, hfiles]
  rw [view_emit]
  congr 1
  have h := congrArg (fun v => View.row v) (view_insert s key
    { row with hits := row.hits + 1, refcount := row.refcount + 1,
               lastUsed := env.monotonicNs s.reads })
  simp only [State.view, View.checkout, View.setRow] at h ⊢
  rw [h]
  rfl

/-- A waiter that gives up is told a miss. -/
theorem view_expireWaiter (frm : From) (hw : ∃ w ∈ s.view.parked key, w.frm = frm) :
    (expireWaiter key frm s).view = s.view.expire key frm := by
  unfold expireWaiter
  rw [if_pos (show ∃ w ∈ (s.waiters.lookup key).getD [], w.frm = frm from hw)]
  set rest := ((s.waiters.lookup key).getD []).eraseP fun w => w.frm = frm with hrest
  dsimp only
  split
  · rename_i hnil
    have hparked : (fun k => ((s.waiters.erase key).lookup k).getD []) =
        Function.update (fun k => (s.waiters.lookup k).getD []) key rest := by
      funext k
      rw [AList.lookup_erase_ite, Function.update_apply, hnil]
      split <;> rfl
    simp only [State.view, View.expire, State.emit, hparked, hrest]
  · have hparked : (fun k => ((s.waiters.insert key rest).lookup k).getD []) =
        Function.update (fun k => (s.waiters.lookup k).getD []) key rest := by
      funext k
      rw [AList.lookup_insert_ite, Function.update_apply]
      split <;> rfl
    simp only [State.view, View.expire, State.emit, ← hrest, ← hparked]

/-- A timer of a waiter that has left does nothing. -/
theorem view_expireWaiter_of_none (frm : From) (hw : ¬ ∃ w ∈ s.view.parked key, w.frm = frm) :
    expireWaiter key frm s = s :=
  if_neg hw

variable (env) in
/-- A lookup is parked under a fresh timer. -/
theorem view_addWaiter (frm : From) (ms : Nat) :
    ∃ w : Waiter, w.frm = frm ∧ w.tref = s.nextRef ∧
      (addWaiter env key frm ms s).view = s.view.park key w ms := by
  let w : Waiter := ⟨frm, env.monotonicNs s.reads + ms * 1000000, s.nextRef⟩
  refine ⟨w, rfl, rfl, ?_⟩
  have hparked : (fun k => ((s.waiters.insert key
        (w :: (s.waiters.lookup key).getD [])).lookup k).getD []) =
      Function.update (fun k => (s.waiters.lookup k).getD []) key
        (w :: (s.waiters.lookup key).getD []) := by
    funext k
    rw [AList.lookup_insert_ite, Function.update_apply]
    split <;> rfl
  simp only [State.view, View.park, ← hparked]
  rfl

end Operations

/-! ### Cleanups and evictions are moves -/

section Passes

variable (msg : Msg) (s : State) (key : CacheKey)

/-- Deleting a row is a move. -/
theorem moves_deleteRow : View.Moves msg s.view (s.deleteRow key).view :=
  (View.Move.remove s.view key).moves (view_deleteRow s key)

variable (deps env) in
/-- A cleanup publishes what it adopts, or removes the row, with its file if it was linked. -/
theorem moves_cleanupByStage (hpub : msg.publishes = true) (r : Reservation) :
    View.Moves msg s.view (cleanupByStage deps env key r s).view := by
  unfold cleanupByStage
  cases r.stage with
  | preLink  => exact moves_deleteRow msg s key
  | postLink =>
    cases validateAndAdopt deps env key r.path s with
    | some a =>
      obtain ⟨row, hav, hfits, hview⟩ := view_adoptRow env s key r.tier r.path a.size
        a.header (some a.tokensBin) a.textBytes
      exact (View.Move.publish s.view key row hpub hav (Or.inl hfits)).moves hview
    | none   =>
      obtain ⟨o, ho, hview⟩ := view_deleteFile env s key r.path
      have hdelete : View.Moves msg s.view (deleteFile env key r.path s).view :=
        (View.Move.delete s.view o ho).moves hview
      exact hdelete.trans (moves_deleteRow msg _ key)

variable (deps env) in
/-- A sweep is a number of cleanups. -/
theorem moves_foldl_cleanup (hpub : msg.publishes = true) (l : List (CacheKey × Reservation)) :
    View.Moves msg s.view
      (l.foldl (fun s e => cleanupByStage deps env e.1 e.2 s) s).view := by
  induction l generalizing s with
  | nil => exact Relation.ReflTransGen.refl
  | cons e l ih => exact (moves_cleanupByStage deps env msg s e.1 hpub e.2).trans (ih _)

/-- Taking an LRU entry out of a key without a row. -/
theorem moves_dropEntry {lruKey : LruKey} (hrow : s.metaTbl.lookup (ofLex lruKey).2 = none) :
    View.Moves msg s.view { s with lru := s.lru.erase lruKey }.view := by
  refine (View.Move.evict s.view lruKey).moves ?_
  have hnone : s.view.row (ofLex lruKey).2 = none := hrow
  unfold View.evict
  rw [← hnone, Function.update_eq_self]
  rfl

variable (env) in
/-- One try takes an LRU entry and its row out, or nothing. -/
theorem moves_tryEvictOne {lruKey : LruKey} (hown : (ofLex lruKey).2 = key)
    (liveKey : Option CacheKey) (mode : EvictMode) :
    View.Moves msg s.view (tryEvictOne env lruKey key liveKey mode s).2.view := by
  unfold tryEvictOne
  cases hrow : s.metaTbl.lookup key with
  | none     => exact moves_dropEntry msg s (by rwa [hown])
  | some row =>
    dsimp only
    split
    · obtain ⟨o, ho, hview⟩ := view_deleteFromTier env s key row.tier row.location
      have hdelete : View.Moves msg s.view (deleteFromTier env row.tier key row.location s).view :=
        (View.Move.delete s.view o ho).moves hview
      refine hdelete.trans ((View.Move.evict _ lruKey).moves ?_)
      have h := view_deleteRow (deleteFromTier env row.tier key row.location s) key
      simp only [View.evict, hown]
      exact congrArg (fun v => { v with lru := v.lru.erase lruKey }) h
    · exact Relation.ReflTransGen.refl

variable (env) in
/-- The walk of the LRU table is a number of tries. -/
theorem moves_runEvictionFrom (liveKey : Option CacheKey) (fuel : Nat) (cur : Option LruKey)
    (n : Nat) : View.Moves msg s.view (runEvictionFrom env fuel cur liveKey n s).2.view := by
  induction fuel generalizing cur n s with
  | zero => exact Relation.ReflTransGen.refl
  | succ fuel ih =>
    cases cur with
    | none        => exact Relation.ReflTransGen.refl
    | some lruKey =>
      have hone := moves_tryEvictOne env msg s (ofLex lruKey).2 rfl liveKey .protect
      unfold runEvictionFrom
      dsimp only
      split
      · rename_i heq
        rw [heq] at hone
        exact hone.trans (ih _ _ _)
      · rename_i heq
        rw [heq] at hone
        exact hone.trans (ih _ _ _)

variable (env) in
/-- The loop over ranked candidates is a number of tries. -/
theorem moves_evictSorted (cs : List Candidate)
    (hown : ∀ c ∈ cs, (ofLex c.lruKey).2 = c.key) (target n bytes : Nat) :
    View.Moves msg s.view (evictSorted env cs target n bytes s).2.view := by
  induction cs generalizing n bytes s with
  | nil => exact Relation.ReflTransGen.refl
  | cons c cs ih =>
    have hone := moves_tryEvictOne env msg s c.key (hown c List.mem_cons_self) none .allow
    have hrest := fun s' => ih s' fun c' hc' => hown c' (List.mem_cons_of_mem c hc')
    unfold evictSorted
    split
    · exact Relation.ReflTransGen.refl
    · split
      · rename_i heq
        rw [heq] at hone
        exact hone.trans (hrest _ _ _)
      · rename_i heq
        rw [heq] at hone
        exact hone.trans (hrest _ _ _)

end Passes

/-! ### One message -/

/-- The messages sent with `gen_server:call/3`: the server owes each one reply. -/
def Msg.isCall : Msg → Bool
  | .setLiveKey _ | .down _ | .waiterExpire _ _ | .sweep | .filesChange _ => false
  | _ => true

/-- How a callback ends after its moves have led to the view `v`: it answers its caller, it
    parks a lookup whose key is being written, or nobody is waiting for an answer. -/
inductive Ends (e : Event) (s s' : State) (v : View) : Prop
  | answers (r : Reply) (hcall : e.msg.isCall = true)
      (hr : ∀ key ms, e.msg = .lookupOrWait key ms →
        r = .miss ∨ ∃ row, v.row key = some row ∧ row.status = .available ∧ r = .row row)
      (heq : s'.view = v.emit [.reply e.frm r])
  | parks (key : CacheKey) (ms : Nat) (w : Waiter) (hmsg : e.msg = .lookupOrWait key ms)
      (hfrm : w.frm = e.frm) (hfresh : w.tref = s.nextRef) (hnext : s'.nextRef = s.nextRef + 1)
      (hrow : ∃ row, v.row key = some row ∧ row.status = .writing)
      (heq : s'.view = v.park key w ms)
  | silent (hcall : e.msg.isCall = false) (heq : s'.view = v)

/-- Parking and answering leave rows, LRU table and pins alone. -/
theorem Ends.rows {e : Event} {s s' : State} {v : View} (h : Ends e s s' v) :
    s'.view.row = v.row ∧ s'.view.lru = v.lru ∧ s'.view.pinned = v.pinned := by
  cases h with
  | answers r hcall hr heq                         => rw [heq]; exact ⟨rfl, rfl, rfl⟩
  | parks key ms w hmsg hfrm hfresh hnext hrow heq => rw [heq]; exact ⟨rfl, rfl, rfl⟩
  | silent hcall heq                               => rw [heq]; exact ⟨rfl, rfl, rfl⟩

/-- The callback of `e` takes `s` to `s'` by a sequence of moves and one ending. -/
def Handled (e : Event) (s s' : State) : Prop :=
  ∃ v, View.Moves e.msg s.startCallback.view v ∧ Ends e s s' v

section Handlers

variable {s : State} {frm : From} {m : Msg}

/-- A call other than a blocking lookup that is answered after some moves. -/
theorem Handled.answer {s1 s2 : State} {r : Reply} (hcall : m.isCall = true)
    (hne : ∀ key ms, m ≠ .lookupOrWait key ms) (hmoves : View.Moves m s.startCallback.view s1.view)
    (heq : s2.view = s1.view.emit [.reply frm r]) : Handled ⟨env, frm, m⟩ s s2 :=
  ⟨s1.view, hmoves, .answers r hcall (fun key ms h => absurd h (hne key ms)) heq⟩

/-- A call other than a blocking lookup that is answered and does nothing else. -/
theorem Handled.reply {s2 : State} {r : Reply} (hcall : m.isCall = true)
    (hne : ∀ key ms, m ≠ .lookupOrWait key ms)
    (heq : s2.view = s.startCallback.view.emit [.reply frm r]) : Handled ⟨env, frm, m⟩ s s2 :=
  .answer hcall hne Relation.ReflTransGen.refl heq

/-- A message that nobody waits for. -/
theorem Handled.silent {s2 : State} (hcall : m.isCall = false)
    (hmoves : View.Moves m s.startCallback.view s2.view) : Handled ⟨env, frm, m⟩ s s2 :=
  ⟨s2.view, hmoves, .silent hcall rfl⟩

variable (s env frm)

/-- A reader takes the row out iff it is available. -/
theorem handleCheckout_handled (key : CacheKey) (pid : Pid) :
    Handled ⟨env, frm, .checkout key pid⟩ s (handleCheckout env key pid frm s.startCallback) := by
  unfold handleCheckout
  cases hrow : s.startCallback.metaTbl.lookup key with
  | none     => exact .reply rfl (by simp) rfl
  | some row =>
    dsimp only
    split
    · rename_i hav
      obtain ⟨t, r, hview⟩ := view_doCheckout env s.startCallback key pid row frm
      exact ⟨_, Relation.ReflTransGen.single (.checkout _ key row t hrow hav),
        .answers r rfl (by simp) hview⟩
    · exact .reply rfl (by simp) rfl

/-- A reader that is registered gives its row back. -/
theorem handleCheckin_handled (monRef : Ref) :
    Handled ⟨env, frm, .checkin monRef⟩ s (handleCheckin monRef frm s.startCallback) := by
  unfold handleCheckin
  cases s.startCallback.holders.lookup monRef with
  | none   => exact .reply rfl (by simp) rfl
  | some h =>
    refine .answer rfl (by simp) ?_ (view_emit _ _)
    exact (View.Move.count s.startCallback.view h.2 (· - 1)).moves
      (view_decrementRefcount
        { s.startCallback with holders := s.startCallback.holders.erase monRef } h.2)

/-- A lookup is answered at once, unless the key is being written and the caller will wait. -/
theorem handleLookupOrWait_handled (key : CacheKey) (ms : Nat) :
    Handled ⟨env, frm, .lookupOrWait key ms⟩ s
      (handleLookupOrWait env key ms frm s.startCallback) := by
  refine ⟨s.startCallback.view, Relation.ReflTransGen.refl, ?_⟩
  unfold handleLookupOrWait
  cases hrow : s.startCallback.metaTbl.lookup key with
  | none     => exact .answers .miss rfl (fun _ _ _ => Or.inl rfl) rfl
  | some row =>
    dsimp only
    cases hst : row.status with
    | available =>
      refine .answers (.row row) rfl (fun key' ms' h => Or.inr ?_) rfl
      obtain ⟨rfl, rfl⟩ := Msg.lookupOrWait.inj h
      exact ⟨row, hrow, hst, rfl⟩
    | evicting => exact .answers .miss rfl (fun _ _ _ => Or.inl rfl) rfl
    | writing =>
      dsimp only
      split
      · obtain ⟨w, hfrm, htref, hview⟩ := view_addWaiter env s.startCallback key frm ms
        exact .parks key ms w rfl hfrm htref rfl ⟨row, hrow, hst⟩ hview
      · exact .answers .miss rfl (fun _ _ _ => Or.inl rfl) rfl

/-- Granting a reservation after some moves. -/
theorem createReservation_handled {key : CacheKey} {tier : Tier} {pid : Pid} {s1 : State}
    (hmoves : View.Moves (.reserveSave key tier pid) s.startCallback.view s1.view) :
    Handled ⟨env, frm, .reserveSave key tier pid⟩ s
      (createReservation env key tier pid frm s1) := by
  obtain ⟨r, hw, t, hview⟩ := view_createReservation env s1 key tier pid frm
  exact ⟨_, hmoves.tail (.reserve s1.view key r hw), .answers _ rfl (by simp) hview⟩

variable (deps) in
/-- A writer gets the key unless it is available or a live writer has it; what a stale one has left
    is cleaned up first. -/
theorem doReserveSave_handled (key : CacheKey) (tier : Tier) (pid : Pid) :
    Handled ⟨env, frm, .reserveSave key tier pid⟩ s
      (doReserveSave deps env key tier pid frm s.startCallback) := by
  set s0 := s.startCallback with hs0
  unfold doReserveSave
  cases s0.status key with
  | none    => exact createReservation_handled env s frm Relation.ReflTransGen.refl
  | some st =>
    cases st with
    | available => exact .reply rfl (by simp) rfl
    | evicting  => exact .reply rfl (by simp) rfl
    | writing   =>
      dsimp only
      unfold handleExistingWritingRow
      cases s0.reservations.lookup key with
      | none     => exact createReservation_handled env s frm (moves_deleteRow _ s0 key)
      | some old =>
        dsimp only
        split
        · refine .reply (r := .conflict) rfl (by simp) ?_
          rw [view_emit, view_afterIsLive]
        · refine createReservation_handled env s frm ?_
          rw [← hs0, ← view_afterIsLive s0 old]
          exact moves_cleanupByStage deps env _ _ key rfl old

/-- The holder of the token announces its save, anyone else is refused. -/
theorem handleAnnounceSaved_handled (key : CacheKey) (token : Ref) (size : Nat) (header : Bytes)
    (tokensBin : Option Bytes) (textBytes : Nat) :
    Handled ⟨env, frm, .announceSaved key token size header tokensBin textBytes⟩ s
      (handleAnnounceSaved env key token size header tokensBin textBytes frm s.startCallback) := by
  set s0 := s.startCallback with hs0
  unfold handleAnnounceSaved
  cases s0.reservationWith key token with
  | none   => exact .reply rfl (by simp) rfl
  | some r =>
    obtain ⟨row, hav, hfits, hview⟩ := view_adoptRow env s0 key r.tier r.path size
      header tokensBin textBytes
    exact .answer rfl (by simp)
      ((View.Move.publish s0.view key row rfl hav (Or.inl hfits)).moves hview) (view_emit _ _)

/-- A cancelled reservation takes its row with it. -/
theorem handleCancelReservation_handled (key : CacheKey) (token : Ref) :
    Handled ⟨env, frm, .cancelReservation key token⟩ s
      (handleCancelReservation key token frm s.startCallback) := by
  unfold handleCancelReservation
  cases s.startCallback.reservationWith key token with
  | none   => exact .reply rfl (by simp) rfl
  | some r => exact .answer rfl (by simp) (moves_deleteRow _ _ key) (view_emit _ _)

/-- A waiter whose time is up leaves; one that has left already is not found. -/
theorem expireWaiter_handled (key : CacheKey) (waiter : From) :
    Handled ⟨env, frm, .waiterExpire key waiter⟩ s (expireWaiter key waiter s.startCallback) := by
  set s0 := s.startCallback with hs0
  refine .silent rfl ?_
  by_cases hw : ∃ w ∈ s0.view.parked key, w.frm = waiter
  · exact (View.Move.expire s0.view key waiter rfl hw).moves (view_expireWaiter s0 key waiter hw)
  · rw [view_expireWaiter_of_none s0 key waiter hw]

variable (deps) in
/-- A process that dies was a reader, a writer, or neither. -/
theorem handleDown_handled (ref : Ref) :
    Handled ⟨env, frm, .down ref⟩ s (handleDown deps env ref s.startCallback) := by
  set s0 := s.startCallback with hs0
  refine .silent rfl ?_
  rcases handleDown_cases deps env s0 ref with
    ⟨pid, k, -, heq⟩ | ⟨-, ⟨-, heq⟩ | ⟨k, r, -, heq⟩⟩
  · rw [heq]
    exact (View.Move.count s0.view k (· - 1)).moves
      (view_decrementRefcount { s0 with holders := s0.holders.erase ref } k)
  · rw [heq]
  · rw [heq]
    exact moves_cleanupByStage deps env _ s0 k rfl r

end Handlers

variable (deps) in
/-- **One message** is a sequence of moves and one ending. -/
theorem step_moves (s : State) (e : Event) :
    ∃ v, View.Moves e.msg s.startCallback.view v ∧ Ends e s (step deps s e) v := by
  obtain ⟨env, frm, msg⟩ := e
  show Handled ⟨env, frm, msg⟩ s (step deps s ⟨env, frm, msg⟩)
  set s0 := s.startCallback with hs0
  cases msg with
  | checkout key pid         => exact handleCheckout_handled env s frm key pid
  | checkin monRef           => exact handleCheckin_handled env s frm monRef
  | lookupOrWait key ms      => exact handleLookupOrWait_handled env s frm key ms
  | reserveSave key tier pid => exact doReserveSave_handled deps env s frm key tier pid
  | checkReservation key token =>
    show Handled _ s (handleCheckReservation env key token frm s0)
    unfold handleCheckReservation
    cases s0.reservationWith key token <;> exact .reply rfl (by simp) rfl
  | markPublished key token path =>
    show Handled _ s (handleMarkPublished env key token path frm s0)
    unfold handleMarkPublished
    cases s0.reservationWith key token <;> exact .reply rfl (by simp) rfl
  | announceSaved key token size header tokensBin textBytes =>
    exact handleAnnounceSaved_handled env s frm key token size header tokensBin textBytes
  | cancelReservation key token => exact handleCancelReservation_handled env s frm key token
  | insertAvailable key tier size header loc tokensBin textBytes =>
    obtain ⟨row, hav, htier, hloc, hview⟩ := view_published env s0 key tier size header
      loc tokensBin textBytes
    have hins : (Msg.insertAvailable key tier size header loc tokensBin textBytes).Inserts
        row.tier row.location := ⟨key, size, header, tokensBin, textBytes, by rw [htier, hloc]⟩
    exact .answer rfl (by simp)
      ((View.Move.publish s0.view key row rfl hav (Or.inr hins)).moves hview) (view_emit _ _)
  | pinRow ns key =>
    exact .answer rfl (by simp) ((View.Move.pin s0.view ns key rfl).moves (view_doPinRow s0 key ns))
      (view_emit _ _)
  | gc => exact .answer rfl (by simp) (moves_runEvictionFrom env _ s0 _ _ _ _) (view_emit _ _)
  | evictBytes target tiers =>
    simp only [step]
    split
    · exact .reply rfl (by simp) rfl
    · refine .answer rfl (by simp) ?_ (view_emit _ _)
      refine moves_evictSorted env _ s0.readClock _ ?_ _ _ _
      exact fun c hc => (evictionCandidates_match tiers _ _ _ c hc).1
  | setLiveKey key          => exact .silent rfl Relation.ReflTransGen.refl
  | filesChange files       => exact .silent rfl Relation.ReflTransGen.refl
  | waiterExpire key waiter => exact expireWaiter_handled env s frm key waiter
  | down ref                => exact handleDown_handled deps env s frm ref
  | sweep => exact .silent rfl (moves_foldl_cleanup deps env _ s0.readClock rfl _)

end Erllama.MetaSrv
