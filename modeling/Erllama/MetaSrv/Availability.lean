import Erllama.MetaSrv.Tables
import Erllama.Lib.Run

namespace Erllama.MetaSrv

open Lib

/-!
# When an available row leaves without an eviction

Apart from `gc` and `evict_bytes`, a row may leave the meta table through the cleanup of a
reservation: `cancel_reservation`, the death of the writer, or the sweep.  These paths
delete the row of the key whatever its status, so the row survives exactly when the key has
no available row, or the cleanup adopts the linked file again.

* `LosesRow` — the message cleans up the reservation of a key that has an available row,
  and does not adopt.
* `KeepsAvailable` — no available row leaves, unless the message evicts.
* `keepsAvailable_iff` — one step keeps the available rows iff it is not a `LosesRow` step.
-/

variable {deps : Deps} {env : Env}

/-- The two messages that evict. -/
def Msg.isEviction : Msg → Bool
  | .gc             => true
  | .evictBytes _ _ => true
  | _               => false

variable (deps) in
/-- Every row that is available before the message is available after it. -/
def KeepsAvailable (s : State) (e : Event) : Prop :=
  e.msg.isEviction = false → ∀ key, Available s key → Available (step deps s e) key

section Loses

variable (deps env)

/-- Cleaning up this reservation deletes an available row. -/
def CleanupLoses (key : CacheKey) (r : Reservation) (s : State) : Prop :=
  Available s key ∧ ¬ Adopts deps env key r s

/-- One of the cleanups, made in this order, deletes an available row. -/
def SweepLoses : List (CacheKey × Reservation) → State → Prop
  | [],            _ => False
  | (key, r) :: l, s =>
    CleanupLoses deps env key r s ∨ SweepLoses l (cleanupByStage deps env key r s)

end Loses

variable (deps) in
/-- The message cleans up the reservation of a key whose row is available, without adopting
    the file again: a cancel with the reservation's token, the `DOWN` of its writer, or a
    sweep that finds it stale. -/
def LosesRow (s : State) (e : Event) : Prop :=
  match e.msg with
  | .cancelReservation key token => (s.reservationWith key token).isSome ∧ Available s key
  | .down ref => s.holders.lookup ref = none ∧
      ∃ key r, findReservationByMonref ref s.reservations = some (key, r) ∧
        CleanupLoses deps e.env key r s
  | .sweep => SweepLoses deps e.env
      (staleReservations e.env (e.env.monotonicNs s.reads) s.reservations)
      s.startCallback.readClock
  | _ => False

/-! ### Availability after a change of one key's stamp -/

section Stamps

variable {s s' : State} {key : CacheKey}

/-- The same stamps keep the rows available. -/
theorem keeps_of_stamp_eq (h : stamp s'.metaTbl = stamp s.metaTbl) :
    ∀ k, Available s k → Available s' k := by
  intro k hk
  rwa [available_iff, h, ← available_iff]

/-- A new stamp keeps them too. -/
theorem keeps_of_stamp_some {t : Int}
    (h : stamp s'.metaTbl = Function.update (stamp s.metaTbl) key (some t)) :
    ∀ k, Available s k → Available s' k := by
  intro k hk
  rw [available_iff, h]
  by_cases hkey : k = key
  · rw [hkey, Function.update_self]; rfl
  · rw [Function.update_of_ne hkey]
    exact available_iff.mp hk

/-- A row that lost its stamp is not available. -/
theorem not_available_of_stamp_none
    (h : stamp s'.metaTbl = Function.update (stamp s.metaTbl) key none) :
    ¬ Available s' key := by
  rw [available_iff, h, Function.update_self]
  simp

/-- Taking a stamp away keeps the rows available iff its row was not. -/
theorem keeps_iff_of_stamp_none
    (h : stamp s'.metaTbl = Function.update (stamp s.metaTbl) key none) :
    (∀ k, Available s k → Available s' k) ↔ ¬ Available s key := by
  constructor
  · intro hkeep hav
    exact not_available_of_stamp_none h (hkeep key hav)
  · intro hnot k hk
    have hkey : k ≠ key := by
      rintro rfl
      exact hnot hk
    rw [available_iff, h, Function.update_of_ne hkey]
    exact available_iff.mp hk

end Stamps

/-! ### One cleanup, and the cleanups of a sweep -/

/-- **One cleanup** keeps the available rows iff it does not lose its own key's. -/
theorem cleanupByStage_keeps_iff (key : CacheKey) (r : Reservation) (s : State) :
    (∀ k, Available s k → Available (cleanupByStage deps env key r s) k) ↔
      ¬ CleanupLoses deps env key r s := by
  by_cases h : Adopts deps env key r s
  · obtain ⟨t, hstamp, -⟩ := (cleanupByStage_installs h).stamp
    exact iff_of_true (keeps_of_stamp_some hstamp) fun hloses => hloses.2 h
  · rw [keeps_iff_of_stamp_none (cleanupByStage_removes h).stamp, CleanupLoses, not_and_not_right]
    exact ⟨fun hnot hav => absurd hav hnot, fun himp hav => h (himp hav)⟩

/-- A cleanup leaves the availability of every other key as it is. -/
theorem available_cleanupByStage_of_ne {key k : CacheKey} (hk : k ≠ key) (r : Reservation)
    (s : State) : Available (cleanupByStage deps env key r s) k ↔ Available s k := by
  rw [available_iff, ((cleanupByStage_frame _ _ _ _ r).1 k hk).1, available_iff]

/-- Cleanups of other keys leave the availability of a key as it is. -/
theorem available_foldl_cleanup_of_notMem {k : CacheKey} {l : List (CacheKey × Reservation)}
    (hk : k ∉ l.map Prod.fst) (s : State) :
    Available (l.foldl (fun s e => cleanupByStage deps env e.1 e.2 s) s) k ↔ Available s k := by
  induction l generalizing s with
  | nil => exact Iff.rfl
  | cons e l ih =>
    rw [List.map_cons, List.mem_cons, not_or] at hk
    rw [List.foldl_cons, ih hk.2, available_cleanupByStage_of_ne hk.1]

/-- **A sweep** of reservations of distinct keys keeps the available rows iff none of its
    cleanups loses one. -/
theorem foldl_cleanup_keeps_iff {l : List (CacheKey × Reservation)}
    (hl : (l.map Prod.fst).Nodup) (s : State) :
    (∀ k, Available s k →
        Available (l.foldl (fun s e => cleanupByStage deps env e.1 e.2 s) s) k) ↔
      ¬ SweepLoses deps env l s := by
  induction l generalizing s with
  | nil => exact iff_of_true (fun k hk => hk) id
  | cons e l ih =>
    obtain ⟨key, r⟩ := e
    rw [List.map_cons, List.nodup_cons] at hl
    obtain ⟨hkey, hl⟩ := hl
    simp only [List.foldl_cons, SweepLoses, not_or]
    rw [← cleanupByStage_keeps_iff, ← ih hl]
    constructor
    · intro hkeep
      have hown : Available s key → Available (cleanupByStage deps env key r s) key := fun h =>
        (available_foldl_cleanup_of_notMem hkey _).mp (hkeep key h)
      refine ⟨fun k hk => ?_, fun k hk => ?_⟩
      · by_cases hne : k = key
        · subst hne; exact hown hk
        · exact (available_cleanupByStage_of_ne hne r s).mpr hk
      · by_cases hne : k = key
        · subst hne; exact (available_foldl_cleanup_of_notMem hkey _).mpr hk
        · exact hkeep k ((available_cleanupByStage_of_ne hne r s).mp hk)
    · rintro ⟨hfirst, hrest⟩ k hk
      exact hrest k (hfirst k hk)

/-- The sweep visits each key at most once. -/
theorem staleReservations_keys_nodup (env : Env) (now : Int) (t : Table CacheKey Reservation) :
    ((staleReservations env now t).map Prod.fst).Nodup := by
  have hkeys : (t.entries.map Sigma.fst).Nodup := t.nodupKeys
  simp only [staleReservations, List.map_map, List.map_reverse, List.nodup_reverse]
  exact hkeys.sublist (List.filter_sublist.map Sigma.fst)

/-! ### One message -/

/-- **One message** other than an eviction keeps the available rows iff it is not a step
    that loses one. -/
theorem keepsAvailable_iff {s : State} {e : Event} (he : e.msg.isEviction = false) :
    (∀ k, Available s k → Available (step deps s e) k) ↔ ¬ LosesRow deps s e := by
  obtain ⟨env, frm, msg⟩ := e
  set s0 := s.startCallback with hs0
  -- Most events keep the stamps of all rows, or give one row a stamp.
  have hkeep : ∀ {s' : State}, SameReadings s0 s' →
      ∀ k, Available s k → Available s' k := fun h => keeps_of_stamp_eq h.stamp
  have hinstall : ∀ {key : CacheKey} {s' : State}, Installs key s0 s' →
      ∀ k, Available s k → Available s' k := fun h => by
    obtain ⟨t, ht, -⟩ := h.stamp
    exact keeps_of_stamp_some ht
  cases msg with
  | gc => simp [Msg.isEviction] at he
  | evictBytes target tiers => simp [Msg.isEviction] at he
  -- Events that take no row away.
  | checkout key pid =>
    refine iff_of_true ?_ id
    rcases handleCheckout_cases env s0 key frm pid with h | ⟨row, -, hav, heq⟩
    · exact hkeep h
    · have hread := doCheckout_readings env s0 key frm pid row hav
      rw [← heq] at hread
      exact keeps_of_stamp_some hread.1
  | checkin monRef =>
    refine iff_of_true ?_ id
    rcases handleCheckin_cases s0 frm monRef with ⟨-, h⟩ | ⟨pid, k, -, heq⟩
    · exact hkeep h
    · refine keeps_of_stamp_eq ?_
      show stamp (handleCheckin monRef frm s0).metaTbl = stamp s.metaTbl
      rw [heq]
      exact stamp_decrementRefcount _ k
  | lookupOrWait key ms => exact iff_of_true (hkeep (handleLookupOrWait_same env s0 key frm ms)) id
  -- A reservation writes a placeholder over the key's row.
  | reserveSave key tier pid =>
    refine iff_of_true ?_ id
    rcases doReserveSave_cases deps env s0 key frm tier pid with
      ⟨h, -⟩ | ⟨hnav, s1, hres, hpre⟩
    · exact hkeep h
    · -- whatever the cleanup did to this key's row, it was not available
      have hstamp : stamp (doReserveSave deps env key tier pid frm s0).metaTbl =
          Function.update (stamp s0.metaTbl) key none := by
        rw [hres.stamp]
        rcases hpre with ⟨-, hinst⟩ | ⟨-, hsame | hrem⟩
        · obtain ⟨t, ht, -⟩ := hinst.stamp
          rw [ht, Function.update_idem]
        · rw [hsame.stamp]
        · rw [hrem.stamp, Function.update_idem]
      exact (keeps_iff_of_stamp_none (s := s) hstamp).mpr hnav
  | checkReservation key token =>
    exact iff_of_true (hkeep (handleCheckReservation_same env s0 key frm token)) id
  | markPublished key token path =>
    exact iff_of_true (hkeep (handleMarkPublished_same env s0 key frm token path)) id
  | announceSaved key token size header tokensBin textBytes =>
    refine iff_of_true ?_ id
    rcases handleAnnounceSaved_cases env s0 key frm token size header tokensBin
      textBytes with ⟨-, h⟩ | ⟨-, h⟩
    · exact hkeep h
    · exact hinstall h
  -- A cancel deletes the row of the key, whoever published it.
  | cancelReservation key token =>
    rcases handleCancelReservation_cases s0 key frm token with ⟨hnone, h⟩ | ⟨hsome, h⟩
    · refine iff_of_true (hkeep h) ?_
      rintro ⟨hsome, -⟩
      rw [show s.reservationWith key token = none from hnone] at hsome
      cases hsome
    · refine (keeps_iff_of_stamp_none (s := s) h.stamp).trans (not_congr ?_)
      exact ⟨fun hav => ⟨hsome, hav⟩, And.right⟩
  | insertAvailable key tier size header loc tokensBin textBytes =>
    exact iff_of_true (hinstall (handleInsertAvailable_installs env s0 key frm tier size header loc
      tokensBin textBytes)) id
  | pinRow ns key =>
    exact iff_of_true (hkeep ((doPinRow_same s0 key ns).emit_reply frm _)) id
  | setLiveKey key => exact iff_of_true (hkeep ⟨rfl, rfl, rfl, rfl, fun _ => Iff.rfl, le_rfl⟩) id
  -- A holder's death gives its reference back; a writer's cleans its reservation up.
  | down ref =>
    rcases handleDown_cases deps env s0 ref with
      ⟨pid, k, hh, heq⟩ | ⟨hh, ⟨hf, heq⟩ | ⟨k, r, hf, heq⟩⟩
    · refine iff_of_true (keeps_of_stamp_eq ?_) ?_
      · show stamp (handleDown deps env ref s0).metaTbl = stamp s.metaTbl
        rw [heq]
        exact stamp_decrementRefcount _ k
      · rintro ⟨hnone, -⟩
        cases hh.symm.trans hnone
    · refine iff_of_true ?_ ?_
      · show ∀ k, Available s k → Available (handleDown deps env ref s0) k
        rw [heq]
        exact hkeep (SameReadings.refl s0)
      · rintro ⟨-, k, r, hsome, -⟩
        cases hf.symm.trans hsome
    · show (∀ k, Available s k → Available (handleDown deps env ref s0) k) ↔ _
      rw [heq]
      refine (cleanupByStage_keeps_iff k r s0).trans (not_congr ?_)
      constructor
      · exact fun h => ⟨hh, k, r, hf, h⟩
      · rintro ⟨-, k', r', hf', h⟩
        obtain ⟨rfl, rfl⟩ := Prod.mk.inj (Option.some.inj (hf.symm.trans hf'))
        exact h
  | waiterExpire key frm' => exact iff_of_true (hkeep (expireWaiter_same s0 key frm')) id
  -- The sweep cleans up every stale reservation, each for a key of its own.
  | sweep =>
    exact foldl_cleanup_keeps_iff
      (staleReservations_keys_nodup env (env.monotonicNs s0.reads) s0.reservations) s0.readClock
  | filesChange files => exact iff_of_true (hkeep ⟨rfl, rfl, rfl, rfl, fun _ => Iff.rfl, le_rfl⟩) id

/-! ### Whole runs -/

/-- **Available rows leave only through eviction, exactly when no cleanup loses one.** In
    every run of the server, all steps keep the available rows iff no step cleans up the
    reservation of a key that has an available row without adopting its file. -/
theorem run_keepsAvailable_iff (files : Files) (es : List Event) :
    AllSteps (step deps) (KeepsAvailable deps) (State.init files) es ↔
      AllSteps (step deps) (fun s e => ¬ LosesRow deps s e) (State.init files) es := by
  refine allSteps_congr (fun s e => ?_) _ es
  by_cases he : e.msg.isEviction = false
  · exact (forall_prop_of_true he).trans (keepsAvailable_iff he)
  · have hno : ¬ LosesRow deps s e := by
      obtain ⟨env, frm, msg⟩ := e
      cases msg <;> first | exact id | exact absurd rfl he
    exact iff_of_true (fun h => absurd h he) hno

/-- A runtime whose clock ticks by one, where every process lives and no file operation
    fails. -/
def steadyEnv : Env where
  monotonicNs n := n
  isProcessAlive _ := true
  fails _ _ := false

/-- Collaborators that never see a valid checkpoint file. -/
def noFileDeps : Deps where
  parse _ _ := none
  hitBias hits _ := hits * 1000000000

/-- A writer reserves key `1`, another process registers an available row for the same key
    (a RAM put, or a tier server that scans its directory), and the writer cancels. -/
def cancelAfterInsert : List Event :=
  [⟨steadyEnv, 0, .reserveSave (.fill 1) .disk 7⟩,
   ⟨steadyEnv, 1, .insertAvailable (.fill 1) .ram 5 [] .ram none 0⟩,
   ⟨steadyEnv, 0, .cancelReservation (.fill 1) 1⟩]

/-- The cancel deletes the available row. -/
theorem cancelAfterInsert_loses :
    ¬ AllSteps (step noFileDeps) (KeepsAvailable noFileDeps) (State.init fun _ => none)
      cancelAfterInsert := by
  rintro ⟨-, -, hcancel, -⟩
  have hbefore : Available (run (step noFileDeps) (State.init fun _ => none)
      (cancelAfterInsert.take 2)) (.fill 1) := by decide
  have hafter := hcancel rfl (.fill 1) hbefore
  revert hafter
  decide

end Erllama.MetaSrv
