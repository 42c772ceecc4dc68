import Erllama.MetaSrv.Index
import Erllama.Lib.Run

namespace Erllama.MetaSrv

open Lib

/-!
# Reservations are exclusive

A ledger kept beside the server records, per key, the token of the latest `reserve_save`
that was granted and has not since been announced, cancelled or cleaned up.  It reads the
messages and the answers only, and the list of reservations a `DOWN` or a sweep cleans up.

* `Ledger`, `ledgerRun` — the outstanding token of every key along a run.
* `ledgerInv_step` — the ledger is the token of the server's reservation, and every token
  it ever held is older than the next fresh reference.
* `exclusive_run` — only the outstanding token is accepted, any other changes nothing, and a
  token that was superseded is never accepted again.
* `entry_step` — where the metadata of a new available row comes from.
-/

variable {deps : Deps} {env : Env}

/-- The message presents a token as authority over a key. -/
def Msg.presents : Msg → Option (CacheKey × Ref)
  | .checkReservation key token => some (key, token)
  | .markPublished key token _ => some (key, token)
  | .announceSaved key token _ _ _ _ => some (key, token)
  | _ => none

/-! ### The ledger -/

/-- The outstanding token of every key. -/
abbrev Ledger := CacheKey → Option Ref

/-- The keys whose reservation this callback cleans up: the writer's `DOWN`, or a sweep. -/
def cleanedUp (s : State) (e : Event) : List CacheKey :=
  match e.msg with
  | .down ref =>
    if (s.holders.lookup ref).isSome then []
    else ((findReservationByMonref ref s.reservations).map Prod.fst).toList
  | .sweep =>
    (staleReservations e.env (e.env.monotonicNs s.reads) s.reservations).map Prod.fst
  | _ => []

/-- The token a `reserve_save` was answered with. -/
def grantedToken (s : State) : Option Ref :=
  match s.answer with
  | some (.token t) => some t
  | _               => none

/-- The ledger after one message: a grant enters its token, an announce or a cancel with the
    outstanding token clears it, and so does a cleanup. -/
def Ledger.after (deps : Deps) (s : State) (e : Event) (l : Ledger) : Ledger := fun key =>
  match e.msg with
  | .reserveSave k _ _ => if key = k then (grantedToken (step deps s e)).or (l key) else l key
  | .announceSaved k token _ _ _ _ => if key = k ∧ l key = some token then none else l key
  | .cancelReservation k token => if key = k ∧ l key = some token then none else l key
  | _ => if key ∈ cleanedUp s e then none else l key

/-- One message, with the ledger beside it. -/
def ledgerStep (deps : Deps) (p : State × Ledger) (e : Event) : State × Ledger :=
  (step deps p.1 e, p.2.after deps p.1 e)

/-- The server and the ledger after a run. -/
def ledgerRun (deps : Deps) (files : Files) (es : List Event) : State × Ledger :=
  run (ledgerStep deps) (State.init files, fun _ => none) es

/-- The ledger does not change what the server does. -/
theorem run_ledgerStep_fst (p : State × Ledger) (es : List Event) :
    (run (ledgerStep deps) p es).1 = run (step deps) p.1 es := by
  induction es generalizing p with
  | nil => rfl
  | cons e es ih => exact ih _

/-! ### Calls that present a token -/

/-- A call with another token is refused, and changes nothing. -/
theorem step_presents_refused {s : State} {e : Event} {key : CacheKey} {token : Ref}
    (he : e.msg.presents = some (key, token)) (hno : s.reservationWith key token = none) :
    step deps s e = { s with out := [.reply e.frm .expired] } := by
  have hno' : s.startCallback.reservationWith key token = none := hno
  obtain ⟨env, frm, msg⟩ := e
  cases msg with
  | checkReservation k t =>
    obtain ⟨rfl, rfl⟩ := Prod.mk.inj (Option.some.inj he)
    simp only [step, handleCheckReservation, hno']
    rfl
  | markPublished k t path =>
    obtain ⟨rfl, rfl⟩ := Prod.mk.inj (Option.some.inj he)
    simp only [step, handleMarkPublished, hno']
    rfl
  | announceSaved k t size header tokensBin textBytes =>
    obtain ⟨rfl, rfl⟩ := Prod.mk.inj (Option.some.inj he)
    simp only [step, handleAnnounceSaved, hno']
    rfl
  | _ => cases he

/-- A call with the reservation's token is accepted. -/
theorem step_presents_accepted {s : State} {e : Event} {key : CacheKey} {token : Ref}
    {r : Reservation} (he : e.msg.presents = some (key, token))
    (hr : s.reservationWith key token = some r) : (step deps s e).answer = some .ok := by
  have hr' : s.startCallback.reservationWith key token = some r := hr
  obtain ⟨env, frm, msg⟩ := e
  cases msg with
  | checkReservation k t =>
    obtain ⟨rfl, rfl⟩ := Prod.mk.inj (Option.some.inj he)
    simp only [step, handleCheckReservation, hr', answer_emit]
  | markPublished k t path =>
    obtain ⟨rfl, rfl⟩ := Prod.mk.inj (Option.some.inj he)
    simp only [step, handleMarkPublished, hr', answer_emit]
  | announceSaved k t size header tokensBin textBytes =>
    obtain ⟨rfl, rfl⟩ := Prod.mk.inj (Option.some.inj he)
    simp only [step, handleAnnounceSaved, hr', answer_emit]
  | _ => cases he

/-- A cancel with another token is answered `ok`, and changes nothing. -/
theorem step_cancel_refused {s : State} {frm : From} {key : CacheKey} {token : Ref}
    (hno : s.reservationWith key token = none) :
    step deps s ⟨env, frm, .cancelReservation key token⟩ =
      { s with out := [.reply frm .ok] } := by
  have hno' : s.startCallback.reservationWith key token = none := hno
  simp only [step, handleCancelReservation, hno']
  rfl

/-! ### The claims after one message -/

/-- The token that holds a key. -/
def Index.tokenOf (i : Index) (key : CacheKey) : Option Ref := (i.claim key).map Claim.token

/-- A token finds its reservation iff it is the outstanding one of the key. -/
theorem reservationWith_isSome_iff {s : State} {key : CacheKey} {token : Ref} :
    (s.reservationWith key token).isSome ↔ s.index.tokenOf key = some token := by
  simp only [State.reservationWith, Index.tokenOf, index_claim]
  cases s.reservations.lookup key with
  | none   => simp
  | some r => simp [Reservation.claim, Option.isSome_filter]

/-- An entry is no part of a claim. -/
@[simp] theorem tokenOf_setEntry (i : Index) (key k : CacheKey) (e : Option Entry) :
    (i.setEntry key e).tokenOf k = i.tokenOf k := rfl

/-- Forgetting a key ends its token. -/
@[simp] theorem tokenOf_forget (i : Index) (key k : CacheKey) :
    (i.forget key).tokenOf k = if k = key then none else i.tokenOf k := by
  simp only [Index.tokenOf, Index.forget, Index.claim_setClaim, Index.claim_setEntry]
  split <;> rfl

/-- Publishing a row ends the token of its key. -/
@[simp] theorem tokenOf_publish (i : Index) (key k : CacheKey) (tier : Tier)
    (path : Option Path) (size : Nat) (header : Bytes) (tokensBin : Option Bytes)
    (textBytes : Nat) :
    (i.publish key tier path size header tokensBin textBytes).tokenOf k =
      if k = key then none else i.tokenOf k := by
  simp only [Index.tokenOf, Index.publish, Index.claim_setClaim, Index.claim_setEntry]
  split <;> rfl

/-- Unlinking a file keeps the tokens. -/
theorem tokenOf_unlink (i : Index) (k : CacheKey) (path : Option Path) :
    (i.unlink env path).tokenOf k = i.tokenOf k := by
  rw [Index.tokenOf, Index.claim_unlink, Index.tokenOf]

/-- A cleanup ends the token of its key. -/
theorem tokenOf_cleanup (i : Index) (key k : CacheKey) (c : Claim) :
    (i.cleanup key deps env c).tokenOf k = if k = key then none else i.tokenOf k := by
  unfold Index.cleanup
  cases c.stage with
  | preLink  => exact tokenOf_forget i key k
  | postLink =>
    cases i.validate key deps env c.path with
    | some a => exact tokenOf_publish i key k _ _ _ _ _ _
    | none   =>
      dsimp only
      rw [tokenOf_forget, tokenOf_unlink]

/-- A sweep ends the tokens of its keys. -/
theorem tokenOf_foldl_cleanup (l : List (CacheKey × Reservation)) (i : Index) (k : CacheKey) :
    (l.foldl (fun i e => i.cleanup e.1 deps env e.2.claim) i).tokenOf k =
      if k ∈ l.map Prod.fst then none else i.tokenOf k := by
  induction l generalizing i with
  | nil => simp
  | cons e l ih =>
    rw [List.foldl_cons, ih, tokenOf_cleanup]
    by_cases hk : k = e.1 <;> by_cases hl : k ∈ l.map Prod.fst <;> simp [hk, hl]

/-- A sweep hands out no reference. -/
theorem nextRef_foldl_cleanup (l : List (CacheKey × Reservation)) (i : Index) :
    (l.foldl (fun i e => i.cleanup e.1 deps env e.2.claim) i).nextRef = i.nextRef := by
  induction l generalizing i with
  | nil => rfl
  | cons e l ih => rw [List.foldl_cons, ih, Index.nextRef_cleanup]

/-- Evictions keep claims and references. -/
theorem Index.Evicts.frame {i i' : Index} (h : Relation.ReflTransGen (Index.Evicts env) i i') :
    i'.claim = i.claim ∧ i'.nextRef = i.nextRef := by
  induction h with
  | refl => exact ⟨rfl, rfl⟩
  | tail _ hstep ih =>
    obtain ⟨key, e, -, -⟩ := hstep
    obtain ⟨-, hclaim, hnext⟩ := Index.deletePayload_frame env _ e.tier e.location
    exact ⟨hclaim.trans ih.1, hnext.trans ih.2⟩

/-! ### The index after a grant -/

/-- A reserved key shows a placeholder. -/
@[simp] theorem Index.entry_reserve (i : Index) (key k : CacheKey) (tier : Tier) (pid : Pid) :
    (i.reserve key tier pid).entry k =
      if k = key then some ⟨.writing, tier, 0, [], .undefined, none, 0⟩ else i.entry k :=
  Index.entry_setEntry i key _ k

/-- A reserved key has a fresh claim that is not marked. -/
@[simp] theorem Index.claim_reserve (i : Index) (key k : CacheKey) (tier : Tier) (pid : Pid) :
    (i.reserve key tier pid).claim k =
      if k = key then some ⟨pid, i.nextRef + 1, i.nextRef, .preLink, tier, none⟩
      else i.claim k :=
  Index.claim_setClaim _ key _ k

/-! ### One message -/

/-- A reserved key has a fresh token. -/
@[simp] theorem tokenOf_reserve (i : Index) (key k : CacheKey) (tier : Tier) (pid : Pid) :
    (i.reserve key tier pid).tokenOf k =
      if k = key then some (i.nextRef + 1) else i.tokenOf k := by
  show ((i.setEntry key _).setClaim key _ |>.claim k).map Claim.token = _
  rw [Index.claim_setClaim]
  split <;> rfl

/-- A mark keeps the tokens. -/
theorem tokenOf_mark (i : Index) (key k : CacheKey) {c : Claim} (hc : i.claim key = some c)
    (path : Path) : (i.mark key c path).tokenOf k = i.tokenOf k := by
  simp only [Index.tokenOf, Index.mark, Index.claim_setClaim]
  split
  · rename_i h
    rw [h, hc]
    rfl
  · rfl

/-- A call that spends the token of a key clears it as the ledger does. -/
theorem tokenOf_spent {i i' : Index} {k key : CacheKey} {token : Ref}
    (h : i'.tokenOf key = if key = k then none else i.tokenOf key)
    (htok : i.tokenOf k = some token) :
    i'.tokenOf key =
      if key = k ∧ i.tokenOf key = some token then none else i.tokenOf key := by
  rw [h]
  by_cases hk : key = k
  · rw [if_pos hk, if_pos ⟨hk, hk ▸ htok⟩]
  · rw [if_neg hk, if_neg fun hand => hk hand.1]

/-- A call with another token clears nothing, and neither does the ledger. -/
theorem tokenOf_kept {i : Index} {k key : CacheKey} {token : Ref}
    (hne : i.tokenOf k ≠ some token) :
    i.tokenOf key =
      if key = k ∧ i.tokenOf key = some token then none else i.tokenOf key := by
  refine (if_neg ?_).symm
  rintro ⟨rfl, h⟩
  exact hne h

/-- The tokens after a reserve-save. -/
theorem tokenOf_doReserveSave (s : State) (key : CacheKey) (tier : Tier) (pid : Pid)
    (frm : From) (k : CacheKey) :
    (doReserveSave deps env key tier pid frm s).index.tokenOf k =
      if k = key then
        (grantedToken (doReserveSave deps env key tier pid frm s)).or (s.index.tokenOf k)
      else s.index.tokenOf k := by
  rcases index_doReserveSave deps env s key tier pid frm with
    ⟨heq, hans⟩ | ⟨-, hans, hindex⟩
  · have hgrant : grantedToken (doReserveSave deps env key tier pid frm s) = none := by
      unfold grantedToken
      split
      · rename_i t ht; exact absurd ht (hans t)
      · rfl
    rw [heq, hgrant, Option.none_or, ite_self]
  · have hgrant : grantedToken (doReserveSave deps env key tier pid frm s) =
        some (s.nextRef + 1) := by
      simp only [grantedToken, hans]
    rw [hgrant]
    rcases hindex with ⟨-, heq⟩ | ⟨c, -, heq⟩
    · rw [heq, tokenOf_reserve]
      rfl
    · rw [heq, tokenOf_reserve, tokenOf_cleanup, Index.nextRef_cleanup]
      split <;> rfl

/-- **One message moves the tokens as the ledger says.** -/
theorem tokenOf_step (s : State) (e : Event) (key : CacheKey) :
    (step deps s e).index.tokenOf key = Ledger.after deps s e s.index.tokenOf key := by
  obtain ⟨env, frm, msg⟩ := e
  set s0 := s.startCallback with hs0
  have hidx : s0.index = s.index := rfl
  -- most messages neither grant nor clear a token
  have hquiet : ∀ s' : State, s'.index.claim = s.index.claim →
      s'.index.tokenOf key = if key ∈ ([] : List CacheKey) then none else s.index.tokenOf key := by
    intro s' h
    rw [if_neg List.not_mem_nil, Index.tokenOf, h, Index.tokenOf]
  cases msg with
  | checkout k pid =>
    refine hquiet _ ?_
    rcases index_handleCheckout env s0 k pid frm with h | ⟨row, -, -, h⟩
    · exact congrArg Index.claim h
    · exact (congrArg Index.claim h).trans (Index.touch_frame _ s0.index _ _).2.1
  | checkin monRef => exact hquiet _ (congrArg Index.claim (index_handleCheckin s0 monRef frm))
  | lookupOrWait k ms =>
    obtain ⟨n, -, h⟩ := index_handleLookupOrWait env s0 k ms frm
    exact hquiet _ ((congrArg Index.claim h).trans rfl)
  -- The grant.
  | reserveSave k tier pid => exact tokenOf_doReserveSave s0 k tier pid frm key
  | checkReservation k token =>
    exact hquiet _ (congrArg Index.claim (index_handleCheckReservation s0 k token frm))
  | markPublished k token path =>
    -- A publication marks the claim and keeps its token.
    show (handleMarkPublished env k token path frm s0).index.tokenOf key =
      if key ∈ ([] : List CacheKey) then none else s.index.tokenOf key
    cases hr : s0.reservationWith k token with
    | none =>
      simp only [handleMarkPublished, hr]
      exact hquiet _ rfl
    | some r =>
      obtain ⟨hlookup, -⟩ := (reservationWith_eq_some_iff s0 k).mp hr
      rw [index_handleMarkPublished s0 k hr, tokenOf_mark _ _ _ (by simp [hlookup])]
      exact (if_neg List.not_mem_nil).symm
  | announceSaved k token size header tokensBin textBytes =>
    -- An announcement spends the token, when it is the right one.
    show (handleAnnounceSaved env k token size header tokensBin textBytes frm s0).index.tokenOf
      key = if key = k ∧ s0.index.tokenOf key = some token then none else s0.index.tokenOf key
    cases hr : s0.reservationWith k token with
    | none =>
      have hne : s0.index.tokenOf k ≠ some token :=
        mt reservationWith_isSome_iff.mpr (by rw [hr]; simp)
      simp only [handleAnnounceSaved, hr]
      exact tokenOf_kept hne
    | some r =>
      rw [index_handleAnnounceSaved s0 k hr]
      exact tokenOf_spent (tokenOf_publish _ _ _ _ _ _ _ _ _)
        (reservationWith_isSome_iff.mp (by rw [hr]; rfl))
  | cancelReservation k token =>
    -- So does a cancel.
    show (handleCancelReservation k token frm s0).index.tokenOf key =
      if key = k ∧ s0.index.tokenOf key = some token then none else s0.index.tokenOf key
    cases hr : s0.reservationWith k token with
    | none =>
      have hne : s0.index.tokenOf k ≠ some token :=
        mt reservationWith_isSome_iff.mpr (by rw [hr]; simp)
      simp only [handleCancelReservation, hr]
      exact tokenOf_kept hne
    | some r =>
      rw [index_handleCancelReservation s0 k hr]
      exact tokenOf_spent (tokenOf_forget _ _ _)
        (reservationWith_isSome_iff.mp (by rw [hr]; rfl))
  | insertAvailable k tier size header loc tokensBin textBytes =>
    have h := index_handleInsertAvailable env s0 k tier size header loc tokensBin
      textBytes frm
    exact hquiet _ ((congrArg Index.claim h).trans rfl)
  | pinRow ns k => exact hquiet _ (congrArg Index.claim (index_doPinRow s0 k ns))
  | gc => exact hquiet _ (Index.Evicts.frame (index_gc deps env s frm)).1
  | evictBytes target tiers =>
    exact hquiet _ (Index.Evicts.frame (index_evictBytes deps env s frm target tiers)).1
  | setLiveKey k => exact hquiet _ rfl
  | down ref =>
    show (handleDown deps env ref s0).index.tokenOf key =
      if key ∈ cleanedUp s ⟨env, frm, .down ref⟩ then none else s.index.tokenOf key
    -- A death clears the token of the one reservation it cleans up, if any.
    rcases handleDown_cases deps env s0 ref with
      ⟨pid, k, hh, heq⟩ | ⟨hh, ⟨hf, heq⟩ | ⟨k, r, hf, heq⟩⟩
    · have hcl : cleanedUp s ⟨env, frm, .down ref⟩ = [] :=
        if_pos (by rw [show s.holders.lookup ref = _ from hh]; rfl)
      rw [heq, hcl, index_decrementRefcount]
      exact hquiet s0 rfl
    · have hcl : cleanedUp s ⟨env, frm, .down ref⟩ = [] := by
        simp [cleanedUp, show findReservationByMonref ref s.reservations = _ from hf]
      rw [heq, hcl]
      exact hquiet s0 rfl
    · have hcl : cleanedUp s ⟨env, frm, .down ref⟩ = [k] := by
        simp [cleanedUp, show s.holders.lookup ref = _ from hh,
          show findReservationByMonref ref s.reservations = _ from hf]
      rw [heq, hcl, index_cleanupByStage, tokenOf_cleanup]
      simp only [List.mem_singleton]
      rfl
  | waiterExpire k frm' => exact hquiet _ (congrArg Index.claim (index_expireWaiter s0 k frm'))
  | sweep =>
    -- The sweep clears those of all stale ones.
    show (sweepReservations deps env s0).index.tokenOf key = _
    rw [index_sweepReservations, tokenOf_foldl_cleanup]
    rfl
  | filesChange files => exact hquiet _ rfl

/-- References only grow. -/
theorem nextRef_step_le (s : State) (e : Event) : s.nextRef ≤ (step deps s e).nextRef := by
  obtain ⟨env, frm, msg⟩ := e
  set s0 := s.startCallback with hs0
  have hof : ∀ {s' : State} {i : Index}, s'.index = i → s.nextRef ≤ i.nextRef →
      s.nextRef ≤ s'.nextRef := fun h hi =>
    hi.trans_eq (congrArg Index.nextRef h).symm
  cases msg with
  | checkout k pid =>
    rcases index_handleCheckout env s0 k pid frm with h | ⟨row, -, -, h⟩
    · exact hof h le_rfl
    · exact hof h (Nat.le_succ _)
  | checkin monRef => exact hof (index_handleCheckin s0 monRef frm) le_rfl
  | lookupOrWait k ms =>
    obtain ⟨n, hn, h⟩ := index_handleLookupOrWait env s0 k ms frm
    exact hof h hn
  | reserveSave k tier pid =>
    rcases index_doReserveSave deps env s0 k tier pid frm with
      ⟨h, -⟩ | ⟨-, -, ⟨-, h⟩ | ⟨c, -, h⟩⟩
    · exact hof h le_rfl
    · exact hof h (Nat.le_add_right _ 2)
    · exact hof h (((Index.nextRef_cleanup s0.index k c).ge).trans (Nat.le_add_right _ 2))
  | checkReservation k token => exact hof (index_handleCheckReservation s0 k token frm) le_rfl
  | markPublished k token path => exact (handleMarkPublished_same env s0 k frm token path).nextRef
  | announceSaved k token size header tokensBin textBytes =>
    rcases handleAnnounceSaved_cases env s0 k frm token size header tokensBin textBytes with
      ⟨-, h⟩ | ⟨-, h⟩
    · exact h.nextRef
    · exact h.nextRef
  | cancelReservation k token =>
    rcases handleCancelReservation_cases s0 k frm token with ⟨-, h⟩ | ⟨-, h⟩
    · exact h.nextRef
    · exact h.nextRef
  | insertAvailable k tier size header loc tokensBin textBytes =>
    exact (handleInsertAvailable_installs env s0 k frm tier size header loc tokensBin
      textBytes).nextRef
  | pinRow ns k => exact (doPinRow_same s0 k ns).nextRef
  | gc => exact (Index.Evicts.frame (index_gc deps env s frm)).2.ge
  | evictBytes target tiers =>
    exact (Index.Evicts.frame (index_evictBytes deps env s frm target tiers)).2.ge
  | setLiveKey k => exact le_rfl
  | down ref =>
    rcases index_handleDown deps env s0 ref with h | ⟨k, r, -, -, h⟩
    · exact hof h le_rfl
    · exact hof h (Index.nextRef_cleanup s0.index k r.claim).ge
  | waiterExpire k frm' => exact hof (index_expireWaiter s0 k frm') le_rfl
  | sweep => exact hof (index_sweepReservations s0) (nextRef_foldl_cleanup _ s0.index).ge
  | filesChange files => exact le_rfl

/-- A granted token is fresh. -/
theorem grantedToken_fresh {s : State} {frm : From} {key : CacheKey} {tier : Tier} {pid : Pid}
    {t : Ref} (h : grantedToken (step deps s ⟨env, frm, .reserveSave key tier pid⟩) = some t) :
    s.nextRef ≤ t ∧ t < (step deps s ⟨env, frm, .reserveSave key tier pid⟩).nextRef := by
  have hstep : step deps s ⟨env, frm, .reserveSave key tier pid⟩ =
      doReserveSave deps env key tier pid frm s.startCallback := rfl
  rw [hstep] at h ⊢
  rcases index_doReserveSave deps env s.startCallback key tier pid frm with
    ⟨-, hans⟩ | ⟨-, hans, hindex⟩
  · unfold grantedToken at h
    split at h
    · rename_i t' ht; exact absurd ht (hans t')
    · cases h
  · simp only [grantedToken, hans, Option.some.injEq] at h
    subst h
    have hnext : (doReserveSave deps env key tier pid frm s.startCallback).index.nextRef =
        s.nextRef + 2 := by
      rcases hindex with ⟨-, heq⟩ | ⟨c, -, heq⟩
      · rw [heq]; rfl
      · rw [heq]
        exact congrArg (· + 2) (Index.nextRef_cleanup s.startCallback.index key c)
    exact ⟨Nat.le_succ _, (Nat.lt_succ_self (s.nextRef + 1)).trans_eq hnext.symm⟩

/-- The ledger only ever enters fresh tokens. -/
theorem Ledger.after_eq_some {s : State} {e : Event} {l : Ledger} {key : CacheKey} {t : Ref}
    (h : l.after deps s e key = some t) :
    l key = some t ∨ s.nextRef ≤ t ∧ t < (step deps s e).nextRef := by
  obtain ⟨env, frm, msg⟩ := e
  cases msg with
  | reserveSave k tier pid =>
    simp only [Ledger.after] at h
    split at h
    · rcases Option.or_eq_some_iff.mp h with hgrant | ⟨-, hl⟩
      · exact Or.inr (grantedToken_fresh hgrant)
      · rename_i hk; exact Or.inl (hk ▸ hl)
    · exact Or.inl h
  | _ =>
    simp only [Ledger.after] at h
    split at h
    · cases h
    · exact Or.inl h

/-! ### Where the metadata of a row comes from -/

/-- The entry a cleanup makes of the checkpoint that it reads, in these files, at the claim's
    path. -/
def AdoptedEntry (deps : Deps) (files : Files) (key : CacheKey) (c : Claim) (entry : Entry) :
    Prop :=
  ∃ p bin info, c.path = some p ∧ files p = some bin ∧ deps.parse bin key = some info ∧
    entry = ⟨.available, c.tier, bin.length, bin.take 48, locationFor c.tier c.path,
      some (encodeTokens info.tokens), info.promptText.length⟩

variable (deps env) in
/-- A cleanup makes an entry of the file at the claim's path, or none. -/
theorem entry_cleanup (i : Index) (key k : CacheKey) (c : Claim) :
    (i.cleanup key deps env c).entry k = i.entry k ∨
      (i.cleanup key deps env c).entry k = none ∨
      k = key ∧ c.stage = .postLink ∧
        ∃ entry, AdoptedEntry deps i.files key c entry ∧
          (i.cleanup key deps env c).entry k = some entry := by
  have hforget : ∀ i' : Index, i'.entry k = i.entry k →
      (i'.forget key).entry k = i.entry k ∨ (i'.forget key).entry k = none := by
    intro i' h
    simp only [Index.forget, Index.entry_setClaim, Index.entry_setEntry, h]
    by_cases hk : k = key <;> simp [hk]
  unfold Index.cleanup
  cases hstage : c.stage with
  | preLink =>
    rcases hforget i rfl with h | h
    · exact Or.inl h
    · exact Or.inr (Or.inl h)
  | postLink =>
    cases hv : i.validate key deps env c.path with
    | none =>
      rcases hforget (i.unlink env c.path) (by rw [Index.entry_unlink]) with h | h
      · exact Or.inl h
      · exact Or.inr (Or.inl h)
    | some a =>
      dsimp only
      simp only [Index.publish, Index.entry_setClaim, Index.entry_setEntry]
      by_cases hk : k = key
      · refine Or.inr (Or.inr ⟨hk, by simp, _, ?_, if_pos hk⟩)
        obtain ⟨bin, hread, hparse⟩ := Option.bind_eq_some_iff.mp hv
        obtain ⟨info, hinfo, rfl⟩ := Option.map_eq_some_iff.mp hparse
        obtain ⟨p, hpath, hbin⟩ := Option.bind_eq_some_iff.mp hread
        refine ⟨p, bin, info, hpath, ?_, hinfo, rfl⟩
        split at hbin
        · cases hbin
        · exact hbin
      · exact Or.inl (if_neg hk)

/-- A cleanup takes files away only. -/
theorem files_of_cleanup {i : Index} {key : CacheKey} {c : Claim} {p : Path} {bin : Bytes}
    (h : (i.cleanup key deps env c).files p = some bin) : i.files p = some bin := by
  have hunlink : ∀ path, (i.unlink env path).files p = some bin → i.files p = some bin := by
    intro path h
    cases path with
    | none   => exact h
    | some q =>
      simp only [Index.unlink] at h
      split at h
      · exact h
      · rw [Function.update_apply] at h
        split at h
        · cases h
        · exact h
  unfold Index.cleanup at h
  cases hstage : c.stage with
  | preLink =>
    rw [hstage] at h
    exact h
  | postLink =>
    rw [hstage] at h
    dsimp only at h
    cases hv : i.validate key deps env c.path with
    | none =>
      rw [hv] at h
      exact hunlink c.path h
    | some a =>
      rw [hv] at h
      exact h

variable (deps env) in
/-- So do several cleanups, of files that were there before the first. -/
theorem entry_foldl_cleanup (l : List (CacheKey × Reservation)) (i : Index) (k : CacheKey) :
    (l.foldl (fun i e => i.cleanup e.1 deps env e.2.claim) i).entry k = i.entry k ∨
      (l.foldl (fun i e => i.cleanup e.1 deps env e.2.claim) i).entry k = none ∨
      ∃ r, (k, r) ∈ l ∧ r.stage = .postLink ∧ ∃ entry, AdoptedEntry deps i.files k r.claim entry ∧
        (l.foldl (fun i e => i.cleanup e.1 deps env e.2.claim) i).entry k = some entry := by
  induction l generalizing i with
  | nil => exact Or.inl rfl
  | cons e l ih =>
    rw [List.foldl_cons]
    rcases ih (i.cleanup e.1 deps env e.2.claim) with
      h | h | ⟨r, hr, hstage, entry, ⟨p, bin, info, hpath, hbin, hrest⟩, h⟩
    · rw [h]
      rcases entry_cleanup deps env i e.1 k e.2.claim with
        h' | h' | ⟨hk, hstage, entry, had, h'⟩
      · exact Or.inl h'
      · exact Or.inr (Or.inl h')
      · exact Or.inr (Or.inr ⟨e.2, hk ▸ List.mem_cons_self, hstage, entry, hk ▸ had, h'⟩)
    · exact Or.inr (Or.inl h)
    · exact Or.inr (Or.inr ⟨r, List.mem_cons_of_mem e hr, hstage, entry,
        ⟨p, bin, info, hpath, files_of_cleanup hbin, hrest⟩, h⟩)

/-- An eviction keeps an entry or takes it away. -/
theorem entry_evicts {i i' : Index} (h : Relation.ReflTransGen (Index.Evicts env) i i')
    (k : CacheKey) : i'.entry k = i.entry k ∨ i'.entry k = none := by
  induction h with
  | refl => exact Or.inl rfl
  | tail _ hstep ih =>
    obtain ⟨key, e, -, -⟩ := hstep
    rw [Index.entry_setEntry, (Index.deletePayload_frame _ _ e.tier e.location).1]
    by_cases hk : k = key
    · exact Or.inr (if_pos hk)
    · rw [if_neg hk]
      exact ih

/-- A stale reservation is the one of its key. -/
theorem lookup_of_mem_stale {now : Int} {t : Table CacheKey Reservation} {k : CacheKey}
    {r : Reservation} (h : (k, r) ∈ staleReservations env now t) : t.lookup k = some r := by
  simp only [staleReservations, List.mem_map, List.mem_reverse, List.mem_filter] at h
  obtain ⟨⟨k', r'⟩, ⟨hmem, -⟩, heq⟩ := h
  obtain ⟨rfl, rfl⟩ := Prod.mk.inj heq
  exact AList.mem_entries_iff.mp hmem

/-- The reservation that a monitor finds is the one of its key. -/
theorem lookup_of_find {ref : Ref} {t : Table CacheKey Reservation} {k : CacheKey}
    {r : Reservation} (h : findReservationByMonref ref t = some (k, r)) :
    t.lookup k = some r := by
  have hmem := List.mem_of_mem_head? h
  simp only [List.mem_map, List.mem_reverse, List.mem_filter] at hmem
  obtain ⟨⟨k', r'⟩, ⟨hmem, -⟩, heq⟩ := hmem
  obtain ⟨rfl, rfl⟩ := Prod.mk.inj heq
  exact AList.mem_entries_iff.mp hmem

/-- How a message can give a key an available entry: the announce of the token's holder
    carries it, a direct insert carries it, or the cleanup of the token's own reservation
    reads it from the file at the path that reservation was marked with. -/
inductive EntrySource (deps : Deps) (s : State) (e : Event) (key : CacheKey) : Entry → Prop
  | announced (token : Ref) (tier : Tier) (size : Nat) (header : Bytes) (loc : Location)
      (tokensBin : Option Bytes) (textBytes : Nat)
      (hmsg : e.msg = .announceSaved key token size header tokensBin textBytes)
      (htoken : s.index.tokenOf key = some token) :
      EntrySource deps s e key ⟨.available, tier, size, header, loc, tokensBin, textBytes⟩
  | inserted (tier : Tier) (size : Nat) (header : Bytes) (loc : Location)
      (tokensBin : Option Bytes) (textBytes : Nat)
      (hmsg : e.msg = .insertAvailable key tier size header loc tokensBin textBytes) :
      EntrySource deps s e key ⟨.available, tier, size, header, loc, tokensBin, textBytes⟩
  | adopted (c : Claim) (entry : Entry) (hc : s.index.claim key = some c)
      (hstage : c.stage = .postLink) (hclean : key ∈ cleanedUp s e)
      (hentry : AdoptedEntry deps s.files key c entry) : EntrySource deps s e key entry

/-- The available entry of a reserved key was there before: the reserved key itself shows a
    placeholder. -/
theorem entry_doReserveSave {s : State} {frm : From} {key k : CacheKey} {tier : Tier} {pid : Pid}
    {entry : Entry}
    (hentry : (doReserveSave deps env k tier pid frm s).index.entry key = some entry)
    (hav : entry.status = .available) : s.index.entry key = some entry := by
  rcases index_doReserveSave deps env s k tier pid frm with ⟨h, -⟩ | ⟨-, -, hindex⟩
  · rw [← h]
    exact hentry
  · by_cases hk : key = k
    · have hplace : entry = ⟨.writing, tier, 0, [], .undefined, none, 0⟩ := by
        rcases hindex with ⟨-, heq⟩ | ⟨c, -, heq⟩
        · rw [heq, Index.entry_reserve, if_pos hk] at hentry
          exact (Option.some.inj hentry).symm
        · rw [heq, Index.entry_reserve, if_pos hk] at hentry
          exact (Option.some.inj hentry).symm
      rw [hplace] at hav
      cases hav
    · rcases hindex with ⟨-, heq⟩ | ⟨c, -, heq⟩
      · rw [heq, Index.entry_reserve, if_neg hk] at hentry
        exact hentry
      · rw [heq, Index.entry_reserve, if_neg hk] at hentry
        rcases entry_cleanup deps env s.index k key c with h | h | ⟨h, -⟩
        · exact h.symm.trans hentry
        · cases h.symm.trans hentry
        · exact absurd h hk

/-- An accepted announce carries the entry, under the token of the key. -/
theorem entry_handleAnnounceSaved {s : State} {frm : From} {key k : CacheKey} {token : Ref}
    {size : Nat} {header : Bytes} {tokensBin : Option Bytes} {textBytes : Nat} {entry : Entry}
    (hentry : (handleAnnounceSaved env k token size header tokensBin textBytes frm s).index.entry
      key = some entry) :
    s.index.entry key = some entry ∨ key = k ∧ s.index.tokenOf k = some token ∧
      ∃ tier loc, entry = ⟨.available, tier, size, header, loc, tokensBin, textBytes⟩ := by
  cases hr : s.reservationWith k token with
  | none =>
    simp only [handleAnnounceSaved, hr] at hentry
    exact Or.inl hentry
  | some r =>
    have htoken : s.index.tokenOf k = some token := by
      rw [← reservationWith_isSome_iff, hr]
      rfl
    rw [index_handleAnnounceSaved s k hr] at hentry
    simp only [Index.publish, Index.entry_setClaim, Index.entry_setEntry] at hentry
    split at hentry
    · rename_i hk
      cases hentry
      exact Or.inr ⟨hk, htoken, _, _, rfl⟩
    · exact Or.inl hentry

/-- A cancel leaves an entry or takes it away. -/
theorem entry_handleCancelReservation {s : State} {frm : From} {key k : CacheKey} {token : Ref}
    {entry : Entry}
    (hentry : (handleCancelReservation k token frm s).index.entry key = some entry) :
    s.index.entry key = some entry := by
  cases hr : s.reservationWith k token with
  | none =>
    simp only [handleCancelReservation, hr] at hentry
    exact hentry
  | some r =>
    rw [index_handleCancelReservation s k hr] at hentry
    simp only [Index.forget, Index.entry_setClaim, Index.entry_setEntry] at hentry
    split at hentry
    · cases hentry
    · exact hentry

/-- The `DOWN` of a writer adopts its own file, or nothing. -/
theorem entry_handleDown {s : State} {frm : From} {key : CacheKey} {ref : Ref} {entry : Entry}
    (hentry : (step deps s ⟨env, frm, .down ref⟩).index.entry key = some entry) :
    s.index.entry key = some entry ∨ EntrySource deps s ⟨env, frm, .down ref⟩ key entry := by
  have hstep : step deps s ⟨env, frm, .down ref⟩ = handleDown deps env ref s.startCallback := rfl
  rcases index_handleDown deps env s.startCallback ref with h | ⟨k, r, hh, hf, h⟩
  · rw [hstep, h] at hentry
    exact Or.inl hentry
  · have hclean : cleanedUp s ⟨env, frm, .down ref⟩ = [k] := by
      simp [cleanedUp, show s.holders.lookup ref = _ from hh,
        show findReservationByMonref ref s.reservations = _ from hf]
    have hc : s.index.claim k = some r.claim :=
      congrArg (Option.map Reservation.claim) (lookup_of_find hf)
    rw [hstep, h] at hentry
    rcases entry_cleanup deps env s.startCallback.index k key r.claim with
      h | h | ⟨hk, hstage, entry', had, h⟩
    · exact Or.inl (h.symm.trans hentry)
    · cases h.symm.trans hentry
    · obtain rfl := Option.some.inj (h.symm.trans hentry)
      subst hk
      refine Or.inr (.adopted r.claim entry' hc hstage ?_ had)
      rw [hclean]
      exact List.mem_singleton.mpr rfl

/-- A sweep adopts the files of stale reservations, or nothing. -/
theorem entry_sweepReservations {s : State} {frm : From} {key : CacheKey} {entry : Entry}
    (hentry : (step deps s ⟨env, frm, .sweep⟩).index.entry key = some entry) :
    s.index.entry key = some entry ∨ EntrySource deps s ⟨env, frm, .sweep⟩ key entry := by
  have hstep : step deps s ⟨env, frm, .sweep⟩ = sweepReservations deps env s.startCallback := rfl
  rw [hstep, index_sweepReservations] at hentry
  rcases entry_foldl_cleanup deps env
    (staleReservations env (env.monotonicNs s.reads) s.reservations) s.startCallback.index key
    with h | h | ⟨r, hr, hstage, entry', had, h⟩
  · exact Or.inl (h.symm.trans hentry)
  · cases h.symm.trans hentry
  · obtain rfl := Option.some.inj (h.symm.trans hentry)
    have hc : s.index.claim key = some r.claim :=
      congrArg (Option.map Reservation.claim) (lookup_of_mem_stale hr)
    exact Or.inr (.adopted r.claim entry' hc hstage (List.mem_map.mpr ⟨_, hr, rfl⟩) had)

/-- **Every available entry has a source.** After one message a key's available entry is
    the one it had, or it came in by one of the three ways, under the token that holds the
    key before the message. -/
theorem entry_step {s : State} {e : Event} {key : CacheKey} {entry : Entry}
    (hentry : (step deps s e).index.entry key = some entry)
    (hav : entry.status = .available) :
    s.index.entry key = some entry ∨ EntrySource deps s e key entry := by
  obtain ⟨env, frm, msg⟩ := e
  set s0 := s.startCallback with hs0
  have hsame : (step deps s ⟨env, frm, msg⟩).index.entry = s.index.entry →
      s.index.entry key = some entry ∨ EntrySource deps s ⟨env, frm, msg⟩ key entry :=
    fun h => Or.inl (h ▸ hentry)
  -- an eviction keeps an entry or takes it away
  have hevicts : Relation.ReflTransGen (Index.Evicts env) s.index
      (step deps s ⟨env, frm, msg⟩).index →
      s.index.entry key = some entry ∨ EntrySource deps s ⟨env, frm, msg⟩ key entry := by
    intro h
    rcases entry_evicts h key with hkept | hgone
    · exact Or.inl (hkept.symm.trans hentry)
    · cases hgone.symm.trans hentry
  cases msg with
  | checkout k pid =>
    refine hsame ?_
    rcases index_handleCheckout env s0 k pid frm with h | ⟨row, -, -, h⟩
    · exact (congrArg Index.entry h).trans rfl
    · exact (congrArg Index.entry h).trans (Index.touch_frame _ s0.index _ _).1
  | checkin monRef =>
    exact hsame ((congrArg Index.entry (index_handleCheckin s0 monRef frm)).trans rfl)
  | lookupOrWait k ms =>
    obtain ⟨n, -, h⟩ := index_handleLookupOrWait env s0 k ms frm
    exact hsame ((congrArg Index.entry h).trans rfl)
  | reserveSave k tier pid =>
    exact Or.inl (entry_doReserveSave (s := s0) hentry hav)
  | checkReservation k token =>
    exact hsame ((congrArg Index.entry (index_handleCheckReservation s0 k token frm)).trans rfl)
  | markPublished k token path =>
    refine hsame ?_
    show (handleMarkPublished env k token path frm s0).index.entry = _
    cases hr : s0.reservationWith k token with
    | none   => simp only [handleMarkPublished, hr]; rfl
    | some r => rw [index_handleMarkPublished s0 k hr]; rfl
  -- An announcement is one source of an available row.
  | announceSaved k token size header tokensBin textBytes =>
    rcases entry_handleAnnounceSaved (s := s0) hentry with h | ⟨rfl, htoken, tier, loc, rfl⟩
    · exact Or.inl h
    · exact Or.inr (.announced token tier size header loc tokensBin textBytes rfl htoken)
  | cancelReservation k token => exact Or.inl (entry_handleCancelReservation (s := s0) hentry)
  -- An insertion is the other.
  | insertAvailable k tier size header loc tokensBin textBytes =>
    have hstep : (step deps s
        ⟨env, frm, .insertAvailable k tier size header loc tokensBin textBytes⟩).index = _ :=
      index_handleInsertAvailable env s0 k tier size header loc tokensBin textBytes frm
    rw [hstep, Index.entry_setEntry] at hentry
    split at hentry
    · rename_i hk
      subst hk
      cases hentry
      exact Or.inr (.inserted _ _ _ _ _ _ rfl)
    · exact Or.inl hentry
  | pinRow ns k => exact hsame ((congrArg Index.entry (index_doPinRow s0 k ns)).trans rfl)
  -- The evictions and the cleanups bring no row in.
  | gc => exact hevicts (index_gc deps env s frm)
  | evictBytes target tiers => exact hevicts (index_evictBytes deps env s frm target tiers)
  | setLiveKey k => exact hsame rfl
  | down ref => exact entry_handleDown hentry
  | waiterExpire k frm' =>
    exact hsame ((congrArg Index.entry (index_expireWaiter s0 k frm')).trans rfl)
  | sweep => exact entry_sweepReservations hentry
  | filesChange files => exact hsame rfl

/-! ### Whole runs -/

/-- The ledger is right about the server: it shows the token of every reservation, and no
    token it shows is still to be handed out. -/
structure LedgerInv (p : State × Ledger) : Prop where
  token : ∀ key, p.1.index.tokenOf key = p.2 key
  fresh : ∀ key t, p.2 key = some t → t < p.1.nextRef

/-- The empty ledger is right about a server that has just started. -/
theorem ledgerInv_init (files : Files) : LedgerInv (State.init files, fun _ => none) where
  token _ := rfl
  fresh _ _ h := nomatch h

/-- One message keeps the ledger right. -/
theorem ledgerInv_step {p : State × Ledger} (e : Event) (h : LedgerInv p) :
    LedgerInv (ledgerStep deps p e) where
  token key := by
    have hp : p.1.index.tokenOf = p.2 := funext h.token
    exact (tokenOf_step p.1 e key).trans (by rw [hp]; rfl)
  fresh key t ht := by
    rcases Ledger.after_eq_some ht with hold | ⟨-, hlt⟩
    · exact (h.fresh key t hold).trans_le (nextRef_step_le p.1 e)
    · exact hlt

/-- So does a run. -/
theorem ledgerInv_run {p : State × Ledger} (h : LedgerInv p) (es : List Event) :
    LedgerInv (run (ledgerStep deps) p es) := by
  induction es generalizing p with
  | nil => exact h
  | cons e es ih => exact ih (ledgerInv_step e h)

/-- A token that no longer holds its key never holds it again. -/
theorem ledger_ne_of_superseded {p : State × Ledger} {key : CacheKey} {t : Ref}
    (hold : t < p.1.nextRef) (hne : p.2 key ≠ some t) (es : List Event) :
    (run (ledgerStep deps) p es).2 key ≠ some t := by
  induction es generalizing p with
  | nil => exact hne
  | cons e es ih =>
    refine ih (p := ledgerStep deps p e) (hold.trans_le (nextRef_step_le p.1 e)) fun ht => ?_
    -- a token that enters the ledger is not older than the state it enters in
    rcases Ledger.after_eq_some ht with h | ⟨h, -⟩
    · exact hne h
    · exact absurd hold (Nat.not_lt.mpr h)

/-- In this run a `reserve_save` of the key was answered with the token. -/
def Granted (deps : Deps) (files : Files) (es : List Event) (key : CacheKey) (t : Ref) : Prop :=
  ∃ pre e post, es = pre ++ e :: post ∧ (∃ tier pid, e.msg = .reserveSave key tier pid) ∧
    (step deps (ledgerRun deps files pre).1 e).answer = some (.token t)

/-- A run of the ledger in two parts. -/
theorem ledgerRun_append (files : Files) (es fs : List Event) :
    ledgerRun deps files (es ++ fs) = run (ledgerStep deps) (ledgerRun deps files es) fs :=
  List.foldl_append

/-- References only grow over a run. -/
theorem nextRef_le_run (p : State × Ledger) (es : List Event) :
    p.1.nextRef ≤ (run (ledgerStep deps) p es).1.nextRef := by
  induction es generalizing p with
  | nil => exact le_rfl
  | cons e es ih => exact (nextRef_step_le p.1 e).trans (ih (ledgerStep deps p e))

/-- A token that was granted is not handed out again. -/
theorem Granted.lt_nextRef {files : Files} {es : List Event} {key : CacheKey} {t : Ref}
    (h : Granted deps files es key t) : t < (ledgerRun deps files es).1.nextRef := by
  obtain ⟨pre, ⟨env, frm, msg⟩, post, rfl, ⟨tier, pid, rfl⟩, hans⟩ := h
  have htoken : grantedToken (step deps (ledgerRun deps files pre).1
      ⟨env, frm, .reserveSave key tier pid⟩) = some t := by
    simp only [grantedToken, hans]
  have hgrant := (grantedToken_fresh htoken).2
  rw [ledgerRun_append, run_cons]
  exact hgrant.trans_le (nextRef_le_run (ledgerStep deps (ledgerRun deps files pre) _) post)

/-- Reservations are exclusive after this run of the server: a call that presents a token is
    accepted iff the token is the ledger's; any other such call is answered `expired`, a cancel
    `ok`, and changes nothing; and a token that was granted and is not the ledger's any more is
    refused at every later point. -/
structure Exclusive (deps : Deps) (files : Files) (es : List Event) : Prop where
  accepted : ∀ (e : Event) (key : CacheKey) (token : Ref), e.msg.presents = some (key, token) →
    ((step deps (ledgerRun deps files es).1 e).answer = some .ok ↔
      (ledgerRun deps files es).2 key = some token)
  refused : ∀ (e : Event) (key : CacheKey) (token : Ref), e.msg.presents = some (key, token) →
    (ledgerRun deps files es).2 key ≠ some token →
      step deps (ledgerRun deps files es).1 e =
        { (ledgerRun deps files es).1 with out := [.reply e.frm .expired] }
  cancelled : ∀ (env : Env) (frm : From) (key : CacheKey) (token : Ref),
    (ledgerRun deps files es).2 key ≠ some token →
      step deps (ledgerRun deps files es).1 ⟨env, frm, .cancelReservation key token⟩ =
        { (ledgerRun deps files es).1 with out := [.reply frm .ok] }
  superseded : ∀ (key : CacheKey) (token : Ref), Granted deps files es key token →
    (ledgerRun deps files es).2 key ≠ some token →
      ∀ (fs : List Event) (e : Event), e.msg.presents = some (key, token) →
        step deps (ledgerRun deps files (es ++ fs)).1 e =
          { (ledgerRun deps files (es ++ fs)).1 with out := [.reply e.frm .expired] }

/-- **Reservation exclusivity.** In every run of the server. -/
theorem exclusive_run (deps : Deps) (files : Files) (es : List Event) :
    Exclusive deps files es := by
  have hinv : ∀ es, LedgerInv (ledgerRun deps files es) :=
    ledgerInv_run (ledgerInv_init files)
  have hnone : ∀ es key token, (ledgerRun deps files es).2 key ≠ some token →
      (ledgerRun deps files es).1.reservationWith key token = none := by
    intro es key token hne
    refine Option.not_isSome_iff_eq_none.mp fun h => hne ?_
    rw [← (hinv es).token]
    exact reservationWith_isSome_iff.mp h
  refine ⟨fun e key token he => ?_, ?_, ?_, ?_⟩
  · constructor
    · intro hok
      by_contra hne
      rw [step_presents_refused he (hnone es key token hne)] at hok
      cases hok
    · intro hl
      rw [← (hinv es).token] at hl
      obtain ⟨r, hr⟩ := Option.isSome_iff_exists.mp (reservationWith_isSome_iff.mpr hl)
      exact step_presents_accepted he hr
  · exact fun e key token he hne => step_presents_refused he (hnone es key token hne)
  · exact fun env frm key token hne => step_cancel_refused (hnone es key token hne)
  · intro key token hgrant hne fs e he
    refine step_presents_refused he (hnone (es ++ fs) key token ?_)
    rw [ledgerRun_append]
    exact ledger_ne_of_superseded hgrant.lt_nextRef hne fs

end Erllama.MetaSrv
