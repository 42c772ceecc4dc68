import Erllama.Model.Account
import Erllama.Model.Contract

namespace Erllama.Model

open Lib

/-!
# What the process owes its callers

The account of a process is read off its queue, its request table and its outbox: a queued
request waits for its answer, and so does a synchronous request in the table; a streaming
request in the table is an open stream.

* `account` — the account of a process.
* `Underway` — a request whose end is not marked, which is every request between two events.
* `Talks` — what the process did, as steps of its account, with no tick cast; `Turn` — the same,
  and no request's end was marked.
* `sends_turns`, `close_turns`, `answer_turns` — the messages about one request.
-/

variable {σ γ Sid : Type}

/-! ### Calls, requests and streams -/

/-- What answers a queued request. -/
def Item.kind : Item Sid → CallKind
  | .complete _ _ _      => .completion
  | .completeMedia _ _ _ => .completion
  | .prefillOnly _ _ _   => .prefill
  | .infer _ _ _ _       => .stream
  | .inferMedia _ _ _ _  => .stream

/-- The call a queued request came with. -/
def Item.due (item : Item Sid) : From × CallKind := (item.frm, item.kind)

/-- The call that a request in the table is to answer. -/
def Req.due (r : Req Sid) : Option (From × CallKind) :=
  match r.mode with
  | .standard    => r.caller.map (·, .completion)
  | .prefillOnly => r.caller.map (·, .prefill)
  | .streaming   => none

/-- The stream of a request, until an error was surfaced on it. -/
def Req.party (r : Req Sid) : Option (Pid × Ref) :=
  if r.thinkingNotEnabled then none else r.stream

/-- Whom a request owes is among its terms. -/
theorem due_of_terms {r r' : Req Sid} (h : r'.terms = r.terms) : r'.due = r.due := by
  unfold Req.due
  rw [mode_of_terms h, caller_of_terms h]

/-- So is its stream, unless it was refused. -/
theorem party_of_terms {r r' : Req Sid} (h : r'.terms = r.terms)
    (hflag : r'.thinkingNotEnabled = r.thinkingNotEnabled) : r'.party = r.party := by
  unfold Req.party
  rw [hflag, stream_of_terms h]

/-- A streaming request has a stream. -/
def Req.HasStream (r : Req Sid) : Prop := r.mode = .streaming → r.stream.isSome

/-- So is that it has one. -/
theorem hasStream_of_terms {r r' : Req Sid} (h : r'.terms = r.terms) (hr : r.HasStream) :
    r'.HasStream := by
  unfold Req.HasStream
  rw [mode_of_terms h, stream_of_terms h]
  exact hr

/-- A request whose end is not marked. -/
structure Req.Underway (r : Req Sid) : Prop where
  stream : r.HasStream
  finishing : r.finishing = false
  flag : r.thinkingNotEnabled = false

/-- The same standing, as much under way. -/
theorem SameStanding.underway {r r' : Req Sid} (h : SameStanding r r') (hr : r.Underway) :
    r'.Underway :=
  ⟨hasStream_of_terms h.terms hr.stream, h.finishing.trans hr.finishing,
    h.thinkingNotEnabled.trans hr.flag⟩

/-- Every request of the table. -/
def TableAll (P : Req Sid → Prop) (t : Table SeqId (Req Sid)) : Prop :=
  ∀ q r, t.lookup q = some r → P r

/-- A record that has the property may be put in. -/
theorem TableAll.putReq {P : Req Sid → Prop} {d : Data σ γ Sid} (h : TableAll P d.reqTable)
    {r : Req Sid} (hr : P r) : TableAll P (putReq d r).reqTable := by
  intro q r' hr'
  rw [lookup_putReq] at hr'
  split at hr'
  · cases hr'
    exact hr
  · exact h q r' hr'

/-- Any record may be taken out. -/
theorem TableAll.removeReq {P : Req Sid → Prop} {d : Data σ γ Sid} (h : TableAll P d.reqTable)
    (q : SeqId) : TableAll P (removeReq d q).reqTable := by
  intro q' r hr
  rw [lookup_removeReq] at hr
  split at hr
  · exact nomatch hr
  · exact h q' r hr

/-! ### The account -/

/-- The account of a queue, some requests and a system. -/
def accountOf (items : List (Item Sid)) (rs : List (Req Sid)) (s : Sys σ γ Sid) : Account where
  owed := (items.map Item.due : List (From × CallKind))
    + (rs.filterMap Req.due : List (From × CallKind))
  live := (rs.filterMap Req.party : List (Pid × Ref))
  out := s.out
  nextRef := s.nextRef

/-- The account of a process. -/
def account (d : Data σ γ Sid) : Account := accountOf d.pending d.reqTable.values d.sys

section Account

variable {items : List (Item Sid)} {rs rs' : List (Req Sid)} {s s' : Sys σ γ Sid} {r : Req Sid}

/-- The order of the requests is no matter. -/
theorem accountOf_perm (h : rs.Perm rs') : accountOf items rs s = accountOf items rs' s := by
  unfold accountOf
  rw [Multiset.coe_eq_coe.mpr (h.filterMap Req.due),
    Multiset.coe_eq_coe.mpr (h.filterMap Req.party)]

/-- A function that sends nothing leaves the account. -/
theorem accountOf_mail (h : SameMail s s') : accountOf items rs s' = accountOf items rs s := by
  unfold accountOf
  rw [h.out, h.nextRef]

/-- A queued request waits for its answer. -/
theorem accountOf_cons_item (item : Item Sid) :
    accountOf (item :: items) rs s = (accountOf items rs s).ask item.due := by
  unfold accountOf Account.ask
  rw [List.map_cons, ← Multiset.cons_coe, Multiset.cons_add]

/-- A queued call is asked. -/
theorem accountOf_append_item (item : Item Sid) :
    accountOf (items ++ [item]) rs s = (accountOf items rs s).ask item.due := by
  rw [← accountOf_cons_item]
  unfold accountOf
  rw [Multiset.coe_eq_coe.mpr ((List.perm_append_singleton item items).map Item.due)]

/-- A request in the table is owed its answer, or is an open stream, or neither. -/
theorem accountOf_cons (items : List (Item Sid)) (r : Req Sid) (rs : List (Req Sid))
    (s : Sys σ γ Sid) :
    accountOf items (r :: rs) s =
      { accountOf items rs s with
        owed := (r.due.elim 0 ({·})) + (accountOf items rs s).owed
        live := (r.party.elim 0 ({·})) + (accountOf items rs s).live } := by
  unfold accountOf
  rw [List.filterMap_cons, List.filterMap_cons]
  cases r.due <;> cases r.party <;>
    simp only [Option.elim_none, Option.elim_some, Multiset.zero_add, Multiset.singleton_add,
      ← Multiset.cons_coe, Multiset.add_cons]

/-- The account around one request of the table. -/
theorem account_of_lookup {d : Data σ γ Sid} {q : SeqId} (h : d.reqTable.lookup q = some r) :
    account d = accountOf d.pending (r :: (d.reqTable.erase q).values) d.sys :=
  accountOf_perm (AList.values_perm_of_lookup h)

/-- The account with a record put in. -/
theorem account_putReq (d : Data σ γ Sid) (r : Req Sid) :
    account (putReq d r)
      = accountOf d.pending (r :: (d.reqTable.erase r.seqId).values) d.sys := rfl

/-- Another record of a request that is owed the same changes nothing. -/
theorem account_putReq_of_same {d : Data σ γ Sid} {q : SeqId} {r₀ : Req Sid}
    (h : d.reqTable.lookup q = some r₀) (hq : r.seqId = q) (hdue : r.due = r₀.due)
    (hparty : r.party = r₀.party) : account (putReq d r) = account d := by
  rw [account_putReq, account_of_lookup h, hq, accountOf_cons, accountOf_cons, hdue, hparty]

/-- The requests of a table are its values, in another order. -/
theorem account_eq_requests (d : Data σ γ Sid) :
    account d = accountOf d.pending (requests d.reqTable) d.sys := by
  have hperm := (List.perm_insertionSort (fun a b : (_ : SeqId) × Req Sid => a.1 ≤ b.1)
    d.reqTable.entries).map (Sigma.snd : ((_ : SeqId) × Req Sid) → Req Sid)
  exact accountOf_perm hperm.symm

end Account

/-! ### Turns -/

/-- What the process did between two of its states, as far as its callers can tell. -/
structure Talks (d d' : Data σ γ Sid) : Prop where
  steps : Account.Steps (account d) (account d')
  ticks : d'.sys.ticks = d.sys.ticks

/-- Nothing was said. -/
theorem Talks.refl (d : Data σ γ Sid) : Talks d d := ⟨.refl, rfl⟩

/-- One function after another. -/
theorem Talks.trans {d d' d'' : Data σ γ Sid} (h : Talks d d') (h' : Talks d' d'') :
    Talks d d'' :=
  ⟨h.steps.trans h'.steps, h'.ticks.trans h.ticks⟩

/-- A function that marks no request's end. -/
structure Turn (d d' : Data σ γ Sid) : Prop extends Talks d d' where
  underway : TableAll Req.Underway d.reqTable → TableAll Req.Underway d'.reqTable

/-- Nothing was said. -/
theorem Turn.refl (d : Data σ γ Sid) : Turn d d := ⟨.refl d, id⟩

/-- One turn after another. -/
theorem Turn.trans {d d' d'' : Data σ γ Sid} (h : Turn d d') (h' : Turn d' d'') : Turn d d'' :=
  ⟨h.toTalks.trans h'.toTalks, fun hd => h'.underway (h.underway hd)⟩

/-- Functions that leave the queue and the table alone and send nothing. -/
theorem Turn.of_mail {d d' : Data σ γ Sid} (hpending : d'.pending = d.pending)
    (htable : d'.reqTable = d.reqTable) (hmail : SameMail d.sys d'.sys) : Turn d d' := by
  refine ⟨⟨?_, hmail.ticks⟩, by rw [htable]; exact id⟩
  have heq : account d' = account d := by
    unfold account
    rw [hpending, htable, accountOf_mail hmail]
  rw [heq]

/-! ### Functions on one request -/

section Requests

variable (env : Env σ γ) (items : List (Item Sid)) (rs : List (Req Sid)) (s : Sys σ γ Sid)
  (r : Req Sid)

/-- A request that is neither owed nor open does not count. -/
theorem accountOf_cons_none {items : List (Item Sid)} {rs : List (Req Sid)} {s : Sys σ γ Sid}
    {r : Req Sid} (hdue : r.due = none) (hparty : r.party = none) :
    accountOf items (r :: rs) s = accountOf items rs s := by
  rw [accountOf_cons, hdue, hparty]
  simp only [Option.elim_none, Multiset.zero_add]

/-- The stream of a request belongs to a streaming one. -/
theorem mode_of_stream {r : Req Sid} {p : Pid × Ref} (h : r.stream = some p) :
    r.mode = .streaming := by
  unfold Req.stream at h
  split at h
  case h_1 hmode _ _ => exact hmode
  case h_2 => exact nomatch h

/-- Events that do not end the stream. -/
theorem sends_turns {s s' : Sys σ γ Sid} {r : Req Sid} (hr : r.thinkingNotEnabled = false)
    (h : Sends r.stream s s') :
    Account.Steps (accountOf items (r :: rs) s) (accountOf items (r :: rs) s') := by
  obtain ⟨⟨evs, hevs, hout⟩, hticks, href⟩ := h
  -- One event at a time, from the last.
  induction evs using List.reverseRecOn generalizing s' with
  | nil =>
    have hmail : SameMail s s' := by
      refine ⟨?_, hticks, href⟩
      rw [hout]
      cases r.stream <;> exact List.append_nil _
    rw [accountOf_mail hmail]
  | append_singleton evs ev ih =>
    have hfirst := @ih { s' with out := s.out ++ noticesTo r.stream evs }
      hticks href (fun ev' hev' => hevs ev' (List.mem_append_left _ hev')) rfl
    refine hfirst.trans ?_
    cases hstream : r.stream with
    | none =>
      have heq : accountOf items (r :: rs) s'
          = accountOf items (r :: rs) { s' with out := s.out ++ noticesTo none evs } := by
        refine accountOf_mail ⟨?_, rfl, rfl⟩
        rw [hout, hstream]
        rfl
      rw [heq]
    | some p =>
      have hparty : r.party = some p := by
        unfold Req.party
        rw [if_neg (by rw [hr]; exact nofun), hstream]
      have hopen : p ∈ (accountOf items (r :: rs)
          { s' with out := s.out ++ noticesTo (some p) evs }).live := by
        rw [accountOf_cons, hparty]
        exact Multiset.mem_add.mpr (.inl (Multiset.mem_singleton_self p))
      have hstep := Account.Step.notify hopen ev (hevs ev (List.mem_append_right _ (by simp)))
      refine .single ?_
      have heq : accountOf items (r :: rs) s'
          = { accountOf items (r :: rs) { s' with out := s.out ++ noticesTo (some p) evs } with
              out := (s.out ++ noticesTo (some p) evs) ++ [.send p.1 p.2 ev] } := by
        unfold accountOf
        rw [hout, hstream, noticesTo_append, ← List.append_assoc]
        rfl
      rw [heq]
      exact hstep

/-- The final event of an open stream. -/
theorem close_turns {p : Pid × Ref} (hstream : r.stream = some p)
    (hr : r.thinkingNotEnabled = false) (ev : StreamEvent) (hev : ev.isFinal = true) :
    Account.Steps (accountOf items (r :: rs) s)
      (accountOf items rs ((s.emit (.unregister p.2)).emit (.send p.1 p.2 ev))) := by
  have hparty : r.party = some p := by
    unfold Req.party
    rw [if_neg (by rw [hr]; exact nofun), hstream]
  have hdue : r.due = none := by
    unfold Req.due
    rw [mode_of_stream hstream]
  have hopen : (accountOf items (r :: rs) s).live = p ::ₘ (accountOf items rs s).live := by
    rw [accountOf_cons, hparty]
    exact Multiset.singleton_add _ _
  refine .single ?_
  have hstep := Account.Step.close hopen ev hev
  have heq : accountOf items rs ((s.emit (.unregister p.2)).emit (.send p.1 p.2 ev))
      = { accountOf items (r :: rs) s with
          live := (accountOf items rs s).live
          out := s.out ++ [.unregister p.2, .send p.1 p.2 ev] } := by
    rw [accountOf_cons, hdue]
    unfold accountOf Sys.emit
    rw [List.append_assoc, Option.elim_none, Multiset.zero_add]
    rfl
  rw [heq]
  exact hstep

/-- The answer of a request that is not streaming. -/
theorem answer_turns {f : From} {k : CallKind} (hdue : r.due = some (f, k)) {rep : Reply}
    (hfits : rep.fits k = true) :
    Account.Steps (accountOf items (r :: rs) s) (accountOf items rs (s.emit (.reply f rep))) := by
  have hparty : r.party = none := by
    have hmode : r.mode ≠ .streaming := by
      intro hmode
      unfold Req.due at hdue
      rw [hmode] at hdue
      exact nomatch hdue
    unfold Req.party
    split
    · rfl
    · cases hstream : r.stream with
      | none => rfl
      | some p => exact absurd (mode_of_stream hstream) hmode
  have howed : (accountOf items (r :: rs) s).owed = (f, k) ::ₘ (accountOf items rs s).owed := by
    rw [accountOf_cons, hdue]
    exact Multiset.singleton_add _ _
  refine .single ?_
  have hstep := Account.Step.answer howed rep hfits
  have heq : accountOf items rs (s.emit (.reply f rep))
      = { accountOf items (r :: rs) s with
          owed := (accountOf items rs s).owed
          out := s.out ++ [.reply f rep] } := by
    rw [accountOf_cons, hparty]
    unfold accountOf Sys.emit
    rw [Option.elim_none, Multiset.zero_add]
  rw [heq]
  exact hstep

end Requests

end Erllama.Model
