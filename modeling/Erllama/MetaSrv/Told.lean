import Erllama.MetaSrv.View
import Erllama.MetaSrv.Availability

namespace Erllama.MetaSrv

open Lib

/-!
# What the server tells whom

A reply goes to the caller of the message, to a waiter whose time is up, or to the waiters of a
key that is published.  The last kind carries the row, and the row has to be the one the key
has when it is sent.

* `View.Tells` — between two views only waiters are told, and each gets the row of its key.
* `cleanupByStage_tells`, `foldl_cleanup_tells` — an adoption, and a sweep of adoptions.
* `answering` — the state in which a callback tells its waiters.
* `step_told` — where each reply of a callback comes from.
-/

variable {deps : Deps} {env : Env}

/-- From `v` to `v'` only rows of `keys` change, nobody parks, and each new reply gives a
    waiter of one of the keys the available row that the key has now. -/
structure View.Tells (keys : List CacheKey) (v v' : View) : Prop where
  told : ∀ f r, .reply f r ∈ v'.out → .reply f r ∈ v.out ∨
    ∃ key ∈ keys, (∃ w ∈ v.parked key, w.frm = f) ∧
      ∃ row, r = .row row ∧ row.status = .available ∧ v'.row key = some row
  parked : ∀ key, ∀ w ∈ v'.parked key, w ∈ v.parked key
  frame : ∀ key, key ∉ keys → v'.row key = v.row key

namespace View.Tells

variable {v v' v'' : View}

theorem refl (v : View) : View.Tells [] v v :=
  ⟨fun _ _ h => Or.inl h, fun _ _ h => h, fun _ _ => rfl⟩

/-- What the waiters were told stays true when the rows of other keys change. -/
theorem trans {ks ks' : List CacheKey} (h : View.Tells ks v v') (h' : View.Tells ks' v' v'')
    (hd : ∀ key ∈ ks, key ∉ ks') : View.Tells (ks ++ ks') v v'' where
  told f r hr := by
    rcases h'.told f r hr with hr | ⟨key, hkey, ⟨w, hw, hfrm⟩, htold⟩
    · rcases h.told f r hr with hr | ⟨key, hkey, hw, row, hrow, hav, hk⟩
      · exact Or.inl hr
      · refine Or.inr ⟨key, List.mem_append_left _ hkey, hw, row, hrow, hav, ?_⟩
        rw [h'.frame key (hd key hkey), hk]
    · exact Or.inr ⟨key, List.mem_append_right _ hkey, ⟨w, h.parked key w hw, hfrm⟩, htold⟩
  parked key w hw := h.parked key w (h'.parked key w hw)
  frame key hkey := by
    rw [List.mem_append, not_or] at hkey
    rw [h'.frame key hkey.2, h.frame key hkey.1]

/-- Removing a row tells nobody. -/
theorem remove (v : View) (key : CacheKey) : View.Tells [key] v (v.setRow key none) where
  told _ _ hr := Or.inl hr
  parked _ _ hw := hw
  frame _ hk := Function.update_of_ne (fun heq => hk (List.mem_singleton.mpr heq)) ..

/-- Deleting a payload tells nobody. -/
theorem delete (v : View) {o : List Out} (ho : ∀ x ∈ o, x.IsDeletion) :
    View.Tells [] v (v.emit o) where
  told _ _ hr := (List.mem_append.mp hr).imp id fun hr => absurd (ho _ hr) id
  parked _ _ hw := hw
  frame _ _ := rfl

/-- A publication tells the waiters of its key. -/
theorem publish (v : View) (key : CacheKey) {r : Row} (hav : r.status = .available) :
    View.Tells [key] v (v.publish key r) where
  told f r' hr := by
    refine (List.mem_append.mp hr).imp id fun hr => ?_
    obtain ⟨w, hw, hr⟩ := List.mem_flatMap.mp hr
    simp only [List.mem_cons, reduceCtorEq, Out.reply.injEq, List.not_mem_nil, or_false,
      false_or] at hr
    obtain ⟨rfl, rfl⟩ := hr
    exact ⟨key, List.mem_singleton.mpr rfl, ⟨w, hw, rfl⟩, v.restored key r, rfl, hav,
      Function.update_self ..⟩
  parked k w hw := by
    by_cases hk : k = key
    · subst hk
      have hnil : (v.publish k r).parked k = [] := Function.update_self ..
      rw [hnil] at hw
      cases hw
    · rwa [show (v.publish key r).parked k = v.parked k from Function.update_of_ne hk ..] at hw
  frame _ hk := Function.update_of_ne (fun heq => hk (List.mem_singleton.mpr heq)) ..

end View.Tells

/-! ### Adoptions -/

variable (deps env) in
theorem cleanupByStage_tells (key : CacheKey) (r : Reservation) (s : State) :
    View.Tells [key] s.view (cleanupByStage deps env key r s).view := by
  have hremove : ∀ s : State, View.Tells [key] s.view
      ((s.deleteRow key).removeReservation key).view := by
    intro s
    rw [view_removeReservation, view_deleteRow]
    exact .remove s.view key
  unfold cleanupByStage
  cases r.stage with
  | preLink  => exact hremove s
  | postLink =>
    cases validateAndAdopt deps env key r.path s with
    | some a =>
      obtain ⟨row, hav, -, hview⟩ := view_adoptRow env s key r.tier r.path a.size a.header
        (some a.tokensBin) a.textBytes
      dsimp only
      rw [hview]
      exact .publish s.view key hav
    | none   =>
      obtain ⟨o, ho, hview⟩ := view_deleteFile env s key r.path
      have hdelete : View.Tells [] s.view (deleteFile env key r.path s).view :=
        hview ▸ .delete s.view ho
      exact hdelete.trans (hremove _) nofun

variable (deps env) in
/-- A sweep cleans each key once, so no adoption touches the row of another. -/
theorem foldl_cleanup_tells (l : List (CacheKey × Reservation)) (hl : (l.map Prod.fst).Nodup)
    (s : State) : View.Tells (l.map Prod.fst) s.view
      (l.foldl (fun s e => cleanupByStage deps env e.1 e.2 s) s).view := by
  induction l generalizing s with
  | nil => exact .refl s.view
  | cons e l ih =>
    rw [List.map_cons, List.nodup_cons] at hl
    have hone := cleanupByStage_tells deps env e.1 e.2 s
    refine hone.trans (ih hl.2 _) fun key hkey => ?_
    rw [List.mem_singleton.mp hkey]
    exact hl.1

/-! ### One message -/

/-- The state in which a callback tells its waiters: its last one, except that `reserve_save`
    may adopt the file of a stale reservation first and then puts its placeholder there. -/
def answering (deps : Deps) (s : State) (e : Event) : State :=
  match e.msg with
  | .reserveSave key _ _ =>
    match s.reservations.lookup key with
    | none     => step deps s e
    | some old => cleanupByStage deps e.env key old (afterIsLive e.env old s.startCallback)
  | _ => step deps s e

/-- Where a reply comes from: it answers the caller, it ends a wait that took too long, or it
    gives a waiter the available row of its key. -/
inductive Told (deps : Deps) (s : State) (e : Event) (f : From) (r : Reply) : Prop
  | caller (hf : f = e.frm) (hcall : e.msg.isCall = true)
      (hr : ∀ key ms, e.msg = .lookupOrWait key ms → r = .miss ∨
        ∃ row, r = .row row ∧ row.status = .available ∧
          (answering deps s e).metaTbl.lookup key = some row)
  | expired (key : CacheKey) (hmsg : e.msg = .waiterExpire key f) (hr : r = .miss)
  | published (key : CacheKey) (hw : ∃ w ∈ s.view.parked key, w.frm = f) (row : Row)
      (hr : r = .row row) (hav : row.status = .available)
      (hrow : (answering deps s e).metaTbl.lookup key = some row)

/-- Moves of a message that publishes nothing tell nobody. -/
theorem View.Moves.tells_nobody {msg : Msg} (hpub : msg.publishes = false)
    (hexp : ∀ key frm, msg ≠ .waiterExpire key frm) {v v' : View} (h : View.Moves msg v v')
    {f : From} {r : Reply} (hr : .reply f r ∈ v'.out) : .reply f r ∈ v.out := by
  induction h with
  | refl => exact hr
  | @tail u u' hmoves hm ih =>
    refine ih ?_
    cases hm with
    | delete o ho => exact (List.mem_append.mp hr).elim id fun hr => (ho _ hr).elim
    | count key n => exact hr
    | checkout key r t hrow hav => exact hr
    | publish key r hp hav hloc =>
      rw [hpub] at hp
      cases hp
    | remove key => exact hr
    | reserve key r hw => exact hr
    | evict lruKey => exact hr
    | pin ns key hmsg => rwa [View.pin_out] at hr
    | expire key frm hmsg hw => exact absurd hmsg (hexp key frm)

section Handlers

variable {s : State} {frm : From} {m : Msg} {f : From} {r : Reply}

/-- A reply among those that adoptions made: some waiter got the row of its key. -/
theorem Told.of_tells {keys : List CacheKey} {s1 : State}
    (htells : View.Tells keys s.startCallback.view s1.view)
    (hrows : (answering deps s ⟨env, frm, m⟩).view.row = s1.view.row)
    (hr : .reply f r ∈ s1.out) : Told deps s ⟨env, frm, m⟩ f r := by
  rcases htells.told f r hr with hnil | ⟨key, -, hw, row, hrow, hav, hk⟩
  · cases hnil
  · exact .published key hw row hrow hav ((congrFun hrows key).trans hk)

/-- A reply of a call, other than a blocking lookup, that answers its caller only. -/
theorem Told.of_caller {out : List Out} (hout : ∀ x ∈ out, ∃ r, x = .reply frm r)
    (hcall : m.isCall = true) (hne : ∀ key ms, m ≠ .lookupOrWait key ms)
    (hr : .reply f r ∈ out) : Told deps s ⟨env, frm, m⟩ f r := by
  obtain ⟨r', heq⟩ := hout _ hr
  exact .caller (Out.reply.inj heq).1 hcall fun key ms h => absurd h (hne key ms)

/-- A reply of a call that tells its waiters and then answers its caller. -/
theorem Told.of_last {keys : List CacheKey} {s1 : State} {out : List Out}
    (htells : View.Tells keys s.startCallback.view s1.view)
    (hout : ∀ x ∈ out, ∃ r, x = .reply frm r)
    (hcall : m.isCall = true) (hne : ∀ key ms, m ≠ .lookupOrWait key ms)
    (hrows : (answering deps s ⟨env, frm, m⟩).view.row = s1.view.row)
    (hr : .reply f r ∈ s1.out ++ out) : Told deps s ⟨env, frm, m⟩ f r :=
  (List.mem_append.mp hr).elim (.of_tells htells hrows) (.of_caller hout hcall hne)

/-- A reply of a message that publishes nothing: a wait that ended at once, or the caller's. -/
theorem Told.of_moves (hpub : m.publishes = false) (hexp : ∀ key frm, m ≠ .waiterExpire key frm)
    (hans : answering deps s ⟨env, frm, m⟩ = step deps s ⟨env, frm, m⟩)
    (hr : .reply f r ∈ (step deps s ⟨env, frm, m⟩).out) : Told deps s ⟨env, frm, m⟩ f r := by
  obtain ⟨v, hmoves, hends⟩ := step_moves deps s ⟨env, frm, m⟩
  have hnobody : .reply f r ∉ v.out := fun h => by cases hmoves.tells_nobody hpub hexp h
  cases hends with
  | answers r' hcall hr' heq =>
    have hout : (step deps s ⟨env, frm, m⟩).out = v.out ++ [.reply frm r'] :=
      congrArg View.out heq
    rw [hout, List.mem_append, List.mem_singleton] at hr
    obtain ⟨rfl, rfl⟩ := Out.reply.inj (hr.resolve_left hnobody)
    refine .caller rfl hcall fun key ms h => (hr' key ms h).imp id ?_
    rintro ⟨row, hrow, hav, rfl⟩
    refine ⟨row, rfl, hav, ?_⟩
    rw [hans]
    exact (congrFun (congrArg View.row heq) key).trans hrow
  | parks key ms w hmsg hfrm hfresh hnext hrow heq =>
    have hout : (step deps s ⟨env, frm, m⟩).out = v.out ++ [.sendAfter w.tref ms key w.frm] :=
      congrArg View.out heq
    rw [hout, List.mem_append, List.mem_singleton] at hr
    cases hr.resolve_left hnobody
  | silent hcall heq => exact absurd ((congrArg View.out heq) ▸ hr) hnobody

/-- One reply to the caller. -/
theorem replies_singleton (r' : Reply) : ∀ x ∈ [Out.reply frm r'], ∃ r, x = .reply frm r :=
  fun _ hx => ⟨r', List.mem_singleton.mp hx⟩

/-- A `reserve_save` tells its waiters the file it adopts, and the caller its token. -/
theorem doReserveSave_told {key : CacheKey} {tier : Tier} {pid : Pid}
    (hr : .reply f r ∈ (doReserveSave deps env key tier pid frm s.startCallback).out) :
    Told deps s ⟨env, frm, .reserveSave key tier pid⟩ f r := by
  set s0 := s.startCallback with hs0
  -- only the caller hears something, unless a stale file is cleaned up
  have honly : ∀ r' : Reply, .reply f r ∈ [Out.reply frm r'] →
      Told deps s ⟨env, frm, .reserveSave key tier pid⟩ f r :=
    fun r' => .of_caller (replies_singleton r') rfl (by simp)
  unfold doReserveSave at hr
  cases hst : s0.status key with
  | none    =>
    rw [hst] at hr
    exact honly _ hr
  | some st =>
    rw [hst] at hr
    cases st with
    | available => exact honly _ hr
    | evicting  => exact honly _ hr
    | writing   =>
      dsimp only at hr
      unfold handleExistingWritingRow at hr
      cases hres : s0.reservations.lookup key with
      | none     =>
        rw [hres] at hr
        exact honly _ hr
      | some old =>
        rw [hres] at hr
        dsimp only at hr
        split at hr
        · have hout : (afterIsLive env old s0).out = [] :=
            congrArg View.out (view_afterIsLive s0 old)
          rw [State.emit, hout] at hr
          exact honly .conflict hr
        · set s1 := cleanupByStage deps env key old (afterIsLive env old s0) with hs1
          have htells : View.Tells [key] s0.view s1.view := by
            rw [← view_afterIsLive s0 old]
            exact cleanupByStage_tells deps env key old _
          have hans : answering deps s ⟨env, frm, .reserveSave key tier pid⟩ = s1 := by
            simp only [answering, show s.reservations.lookup key = some old from hres]
            rfl
          exact .of_last htells (replies_singleton (.token (s1.nextRef + 1))) rfl (by simp)
            (by rw [hans]) hr

/-- An announcement that is accepted tells the waiters of its key. -/
theorem handleAnnounceSaved_told {key : CacheKey} {token : Ref} {size : Nat} {header : Bytes}
    {tokensBin : Option Bytes} {textBytes : Nat}
    (hr : .reply f r ∈
      (handleAnnounceSaved env key token size header tokensBin textBytes frm s.startCallback).out) :
    Told deps s ⟨env, frm, .announceSaved key token size header tokensBin textBytes⟩ f r := by
  set s0 := s.startCallback with hs0
  have hans : answering deps s
      ⟨env, frm, .announceSaved key token size header tokensBin textBytes⟩ =
      handleAnnounceSaved env key token size header tokensBin textBytes frm s0 := rfl
  unfold handleAnnounceSaved at hr hans
  cases hres : s0.reservationWith key token with
  | none     =>
    rw [hres] at hr
    exact .of_caller (replies_singleton _) rfl (by simp) hr
  | some res =>
    rw [hres] at hr hans
    obtain ⟨row, hav, -, hview⟩ := view_adoptRow env s0 key res.tier res.path size header
      tokensBin textBytes
    have htells : View.Tells [key] s0.view (adoptRow env key res.tier res.path size header tokensBin
        textBytes s0).view := by
      rw [hview]
      exact .publish s0.view key hav
    refine .of_last htells (replies_singleton .ok) rfl (by simp) ?_ hr
    rw [hans]
    rfl

/-- A row that is registered is told to the waiters of its key. -/
theorem insertAvailable_told {key : CacheKey} {tier : Tier} {size : Nat} {header : Bytes}
    {loc : Location} {tokensBin : Option Bytes} {textBytes : Nat}
    (hr : .reply f r ∈ (step deps s
      ⟨env, frm, .insertAvailable key tier size header loc tokensBin textBytes⟩).out) :
    Told deps s ⟨env, frm, .insertAvailable key tier size header loc tokensBin textBytes⟩ f r := by
  set s0 := s.startCallback with hs0
  obtain ⟨row, hav, -, -, hview⟩ := view_published env s0 key tier size header loc
    tokensBin textBytes
  set s1 := notifyWaiters key (maybeRestorePin key
    (installAvailableRow env key tier size header loc tokensBin textBytes s0)) with hs1
  have htells : View.Tells [key] s0.view s1.view := hview ▸ .publish s0.view key hav
  exact .of_last htells (replies_singleton .ok) rfl (by simp) rfl hr

/-- The death of a writer may publish the file it has linked. -/
theorem handleDown_told {ref : Ref}
    (hr : .reply f r ∈ (handleDown deps env ref s.startCallback).out) :
    Told deps s ⟨env, frm, .down ref⟩ f r := by
  set s0 := s.startCallback with hs0
  have hans : answering deps s ⟨env, frm, .down ref⟩ = handleDown deps env ref s0 := rfl
  rcases handleDown_cases deps env s0 ref with
    ⟨pid, k, -, heq⟩ | ⟨-, ⟨-, heq⟩ | ⟨k, res, -, heq⟩⟩
  · rw [heq] at hr
    cases hr
  · rw [heq] at hr
    cases hr
  · rw [heq] at hr hans
    exact .of_tells (cleanupByStage_tells deps env k res s0) (by rw [hans]) hr

/-- A wait that took too long is a miss. -/
theorem expireWaiter_told {key : CacheKey} {waiter : From}
    (hr : .reply f r ∈ (expireWaiter key waiter s.startCallback).out) :
    Told deps s ⟨env, frm, .waiterExpire key waiter⟩ f r := by
  set s0 := s.startCallback with hs0
  by_cases hw : ∃ w ∈ s0.view.parked key, w.frm = waiter
  · have hout : (expireWaiter key waiter s0).out = [.reply waiter .miss] :=
      congrArg View.out (view_expireWaiter s0 key waiter hw)
    rw [hout, List.mem_singleton] at hr
    obtain ⟨rfl, rfl⟩ := Out.reply.inj hr
    exact .expired key rfl rfl
  · rw [view_expireWaiter_of_none s0 key waiter hw] at hr
    cases hr

end Handlers

variable (deps) in
/-- **Where replies come from.** -/
theorem step_told (s : State) (e : Event) (f : From) (r : Reply)
    (hr : .reply f r ∈ (step deps s e).out) : Told deps s e f r := by
  obtain ⟨env, frm, msg⟩ := e
  cases msg with
  | reserveSave key tier pid => exact doReserveSave_told hr
  | announceSaved key token size header tokensBin textBytes => exact handleAnnounceSaved_told hr
  | insertAvailable key tier size header loc tokensBin textBytes => exact insertAvailable_told hr
  | down ref => exact handleDown_told hr
  | sweep =>
    have hnodup := staleReservations_keys_nodup env (env.monotonicNs s.startCallback.reads)
      s.startCallback.reservations
    exact .of_tells (foldl_cleanup_tells deps env _ hnodup s.startCallback.readClock) rfl hr
  | waiterExpire key waiter => exact expireWaiter_told hr
  | _ => exact .of_moves rfl (by simp) rfl hr

end Erllama.MetaSrv
