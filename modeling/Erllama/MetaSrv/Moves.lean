import Erllama.MetaSrv.Reservations

namespace Erllama.MetaSrv

open Lib

/-!
# What one callback can do to the index

The calls of the save pipeline do one thing each to the index (`index_handle*`).  Every other
message is a sequence of four moves: the reference counter grows, an available entry's file
has its hit count rewritten, a claim is cleaned up, an available entry is evicted with its
file.

* `Msg.isBackground` — the messages that are not calls of the save pipeline.
* `dropped` — the keys whose reservation a callback drops without looking at the disk.
* `Index.Move` — one of the four moves.
* `index_background` — a background message is a sequence of moves.
-/

variable {deps : Deps} {env : Env}

/-- A message the server gets beside the calls of the save pipeline, on a tier that runs. -/
def Msg.isBackground : Msg → Bool
  | .checkout _ _ | .checkin _ | .lookupOrWait _ _ | .pinRow _ _ | .gc | .evictBytes _ _
  | .setLiveKey _ | .down _ | .waiterExpire _ _ | .sweep => true
  | .reserveSave _ _ _ | .checkReservation _ _ | .markPublished _ _ _
  | .announceSaved _ _ _ _ _ _ | .cancelReservation _ _ | .insertAvailable _ _ _ _ _ _ _
  | .filesChange _ => false

/-- The keys whose reservation this callback drops without looking at the disk: it was
    cancelled, or cleaned up in stage `pre_link`. -/
def dropped (s : State) (e : Event) : List CacheKey :=
  match e.msg with
  | .cancelReservation key token => if (s.reservationWith key token).isSome then [key] else []
  | _ => (cleanedUp s e).filter fun key =>
      (s.reservations.lookup key).map Reservation.stage = some .preLink

/-- One move of the index outside the save pipeline; a claim in stage `pre_link` is cleaned
    up only for a key that `D` allows. -/
inductive Index.Move (deps : Deps) (env : Env) (D : CacheKey → Prop) : Index → Index → Prop
  | tick (i : Index) (n : Ref) (hn : i.nextRef ≤ n) : Move deps env D i { i with nextRef := n }
  | touch (i : Index) (key : CacheKey) (e : Entry) (hits : Nat) (n : Ref)
      (he : i.entry key = some e) (hav : e.status = .available) (hn : i.nextRef ≤ n) :
      Move deps env D i { i.touch env e.location hits with nextRef := n }
  | cleanup (i : Index) (key : CacheKey) (c : Claim) (hc : i.claim key = some c)
      (hd : c.stage = .preLink → D key) : Move deps env D i (i.cleanup key deps env c)
  | evict (i : Index) (key : CacheKey) (e : Entry) (he : i.entry key = some e)
      (hav : e.status = .available) :
      Move deps env D i ((i.deletePayload env e.tier e.location).setEntry key none)

/-- A sequence of moves. -/
abbrev Index.Moves (deps : Deps) (env : Env) (D : CacheKey → Prop) :=
  Relation.ReflTransGen (Index.Move deps env D)

/-! ### A cleanup concerns one key -/

/-- Cleaning up takes the claim away. -/
theorem Index.claim_cleanup (i : Index) (key k : CacheKey) (c : Claim) :
    (i.cleanup key deps env c).claim k = if k = key then none else i.claim k := by
  unfold Index.cleanup
  cases c.stage with
  | preLink  => simp only [Index.forget, Index.claim_setClaim, Index.claim_setEntry]
  | postLink =>
    cases i.validate key deps env c.path with
    | some a => simp only [Index.publish, Index.claim_setClaim, Index.claim_setEntry]
    | none   =>
      simp only [Index.forget, Index.claim_setClaim, Index.claim_setEntry, Index.claim_unlink]

/-- It touches no other entry. -/
theorem Index.entry_cleanup_of_ne (i : Index) {key k : CacheKey} (hne : k ≠ key) (c : Claim) :
    (i.cleanup key deps env c).entry k = i.entry k := by
  unfold Index.cleanup
  cases c.stage with
  | preLink  =>
    simp only [Index.forget, Index.entry_setClaim, Index.entry_setEntry, if_neg hne]
  | postLink =>
    cases i.validate key deps env c.path with
    | some a =>
      simp only [Index.publish, Index.entry_setClaim, Index.entry_setEntry, if_neg hne]
    | none   =>
      simp only [Index.forget, Index.entry_setClaim, Index.entry_setEntry, if_neg hne,
        Index.entry_unlink]

/-! ### Sequences of moves -/

section

variable {D : CacheKey → Prop} {i j : Index}

/-- Nothing moved. -/
theorem Index.Moves.of_eq (h : j = i) : Index.Moves deps env D i j :=
  h ▸ Relation.ReflTransGen.refl

/-- Evictions are moves. -/
theorem Index.Moves.of_evicts (h : Relation.ReflTransGen (Index.Evicts env) i j) :
    Index.Moves deps env D i j := by
  refine Relation.ReflTransGen.mono (fun i j hij => ?_) _ _ h
  obtain ⟨key, e, he, hav⟩ := hij
  exact .evict i key e he hav

/-- Cleaning up distinct keys one after the other: each claim is still the one it was. -/
theorem Index.Moves.of_cleanups (l : List (CacheKey × Reservation))
    (hnodup : (l.map Prod.fst).Nodup)
    (hclaim : ∀ e ∈ l, i.claim e.1 = some e.2.claim)
    (hdrop : ∀ e ∈ l, e.2.stage = .preLink → D e.1) :
    Index.Moves deps env D i (l.foldl (fun i e => i.cleanup e.1 deps env e.2.claim) i) := by
  induction l generalizing i with
  | nil => exact Relation.ReflTransGen.refl
  | cons e l ih =>
    rw [List.map_cons, List.nodup_cons] at hnodup
    have hhead : Index.Move deps env D i (i.cleanup e.1 deps env e.2.claim) :=
      .cleanup i e.1 e.2.claim (hclaim e List.mem_cons_self) (hdrop e List.mem_cons_self)
    have htail : Index.Moves deps env D (i.cleanup e.1 deps env e.2.claim)
        (l.foldl (fun i e => i.cleanup e.1 deps env e.2.claim)
          (i.cleanup e.1 deps env e.2.claim)) := by
      refine ih hnodup.2 (fun e' he' => ?_) fun e' he' =>
        hdrop e' (List.mem_cons_of_mem e he')
      -- the head's cleanup leaves the other keys' claims alone
      have hne : e'.1 ≠ e.1 := fun h => hnodup.1 (h ▸ List.mem_map_of_mem he')
      rw [Index.claim_cleanup, if_neg hne]
      exact hclaim e' (List.mem_cons_of_mem e he')
    exact htail.head hhead

end

/-! ### The background messages -/

/-- The stale reservations are those of distinct keys. -/
theorem nodup_staleReservations (now : Int) (t : Table CacheKey Reservation) :
    ((staleReservations env now t).map Prod.fst).Nodup := by
  have hkeys : (t.entries.map Sigma.fst).Nodup := t.nodupKeys
  have hfst : (staleReservations env now t).map Prod.fst =
      ((t.entries.filter fun e =>
        e.2.expiresNs ≤ now || !env.isProcessAlive e.2.writer).map Sigma.fst).reverse := by
    simp only [staleReservations, List.map_map, List.map_reverse]
    rfl
  rw [hfst, List.nodup_reverse]
  exact (List.filter_sublist.map Sigma.fst).nodup hkeys

/-- A reservation cleaned up by a `DOWN` or a sweep in stage `pre_link` is dropped. -/
theorem mem_dropped_of_cleanedUp {s : State} {e : Event} {key : CacheKey} {r : Reservation}
    (hmsg : ∀ k t, e.msg ≠ .cancelReservation k t) (hclean : key ∈ cleanedUp s e)
    (hr : s.reservations.lookup key = some r) (hstage : r.stage = .preLink) :
    key ∈ dropped s e := by
  have hfilter : key ∈ (cleanedUp s e).filter fun key =>
      (s.reservations.lookup key).map Reservation.stage = some .preLink :=
    List.mem_filter.mpr ⟨hclean, by simp [hr, hstage]⟩
  unfold dropped
  split
  · rename_i k t h
    exact absurd h (hmsg k t)
  · exact hfilter

/-- **Background messages.** What is not a call of the save pipeline moves the index by
    reference counts, hit counts, cleanups and evictions only. -/
theorem index_background (s : State) (frm : From) {msg : Msg} (hbg : msg.isBackground = true) :
    Index.Moves deps env (· ∈ dropped s ⟨env, frm, msg⟩) s.index
      (step deps s ⟨env, frm, msg⟩).index := by
  set s0 := s.startCallback with hs0
  cases msg with
  | checkout key pid =>
    -- A checkout moves the index only where it found an available row, whose claim it counts.
    rcases index_handleCheckout env s0 key pid frm with h | ⟨row, hrow, hav, h⟩
    · exact .of_eq h
    · have hentry : s0.index.entry key = some row.entry := by
        rw [index_entry, hrow]
        rfl
      have hmove : Index.Move deps env (· ∈ dropped s ⟨env, frm, .checkout key pid⟩) s0.index _ :=
        .touch s0.index key row.entry (row.hits + 1) (s0.nextRef + 1) hentry hav (Nat.le_succ _)
      have hstep : (step deps s ⟨env, frm, .checkout key pid⟩).index =
          { s0.index.touch env row.entry.location (row.hits + 1) with
            nextRef := s0.nextRef + 1 } := h
      rw [hstep]
      exact Relation.ReflTransGen.single hmove
  | checkin monRef => exact .of_eq (index_handleCheckin s0 monRef frm)
  | lookupOrWait key ms =>
    obtain ⟨n, hn, h⟩ := index_handleLookupOrWait env s0 key ms frm
    have hstep : (step deps s ⟨env, frm, .lookupOrWait key ms⟩).index =
        { s0.index with nextRef := n } := h
    rw [hstep]
    exact Relation.ReflTransGen.single (.tick s0.index n hn)
  | pinRow ns key => exact .of_eq (index_doPinRow s0 key ns)
  | gc => exact .of_evicts (index_gc deps env s frm)
  | evictBytes target tiers => exact .of_evicts (index_evictBytes deps env s frm target tiers)
  | setLiveKey key => exact Relation.ReflTransGen.refl
  | waiterExpire key frm' => exact .of_eq (index_expireWaiter s0 key frm')
  | down ref =>
    -- A dead process is a holder, whose rows are only released, or a writer, whose reservation goes
    -- with its files.
    rcases index_handleDown deps env s0 ref with h | ⟨k, r, hh, hf, h⟩
    · exact .of_eq h
    · have hstep : (step deps s ⟨env, frm, .down ref⟩).index =
          s0.index.cleanup k deps env r.claim := h
      have hlookup : s.reservations.lookup k = some r := lookup_of_find hf
      have hclean : k ∈ cleanedUp s ⟨env, frm, .down ref⟩ := by
        have hh' : s.holders.lookup ref = none := hh
        have hf' : findReservationByMonref ref s.reservations = some (k, r) := hf
        simp [cleanedUp, hh', hf']
      rw [hstep]
      refine Relation.ReflTransGen.single (.cleanup s0.index k r.claim ?_ fun hstage => ?_)
      · exact congrArg (Option.map Reservation.claim) hlookup
      · exact mem_dropped_of_cleanedUp (fun _ _ => by simp) hclean hlookup hstage
  | sweep =>
    have hstep : (step deps s ⟨env, frm, .sweep⟩).index =
        (staleReservations env (env.monotonicNs s0.reads) s0.reservations).foldl
          (fun i e => i.cleanup e.1 deps env e.2.claim) s0.index :=
      index_sweepReservations s0
    rw [hstep]
    refine .of_cleanups _ (nodup_staleReservations _ _) (fun e he => ?_) fun e he hstage => ?_
    · exact congrArg (Option.map Reservation.claim) (lookup_of_mem_stale (r := e.2) he)
    · refine mem_dropped_of_cleanedUp (fun _ _ => by simp) ?_ (lookup_of_mem_stale he) hstage
      exact List.mem_map_of_mem he
  | _ => cases hbg

end Erllama.MetaSrv
